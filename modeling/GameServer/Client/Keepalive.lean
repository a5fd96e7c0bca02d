import GameServer.Client.GameClient
import Mathlib.Data.Int.DivMod

/-!
The heartbeats of the client: `GameSession.Tick` in the whole of
`GameClient.cs`.

A heartbeat carries the time at which it was sent, so what is sent on a
connection says when the client showed itself there. While the session is not
connected `lastHeartbeatMs` is the sentinel, and from then on it is the last
heartbeat of the connection in use (`Paced`). Only `Tick` sends heartbeats;
every other step is a `Pulse` that leaves them alone.
-/

namespace GameServer.Client

open GameServer.Lib
open GameServer.Proto

variable {F : Type}

/-- The times of the heartbeats among these messages. -/
def beats (msgs : List (ClientMsg F)) : List ℤ :=
  msgs.filterMap fun msg =>
    match msg with
    | .heartbeat clientMs => some clientMs
    | _ => none

/-- Two seconds between one heartbeat and the next. -/
def Spaced (ts : List ℤ) : Prop := ts.Pairwise fun a b => a + 2000 ≤ b

theorem beats_append (msgs more : List (ClientMsg F)) :
    beats (msgs ++ more) = beats msgs ++ beats more :=
  List.filterMap_append

theorem Spaced.concat {ts : List ℤ} {last t : ℤ} (h : Spaced (ts ++ [last]))
    (hgap : last + 2000 ≤ t) : Spaced (ts ++ [last] ++ [t]) := by
  refine List.pairwise_append.mpr ⟨h, List.pairwise_singleton _ _, fun a ha b hb => ?_⟩
  rw [List.mem_singleton.mp hb]
  rcases List.mem_append.mp ha with ha | ha
  · have := (List.pairwise_append.mp h).2.2 a ha last (List.mem_singleton_self _)
    omega
  · rw [List.mem_singleton.mp ha]
    exact hgap

namespace GameSession

variable {s : GameSession} {r : GameSession × List (ClientMsg F)}

/-- A method that has nothing to do with heartbeats. -/
structure Calm (s : GameSession) (r : GameSession × List (ClientMsg F)) : Prop where
  beats : beats r.2 = []
  last : r.1.lastHeartbeatMs = s.lastHeartbeatMs

theorem Calm.trans {s' : GameSession} (h : Calm s' r)
    (hlast : s'.lastHeartbeatMs = s.lastHeartbeatMs) : Calm s r :=
  ⟨h.beats, h.last.trans hlast⟩

theorem calm_requestMatch (s : GameSession) : Calm s (s.requestMatch (F := F)) := by
  unfold requestMatch
  split <;> exact ⟨rfl, rfl⟩

theorem calm_requestLeaderboard (topN : ℕ) (s : GameSession) :
    Calm s (s.requestLeaderboard (F := F) topN) := by
  unfold requestLeaderboard
  split <;> exact ⟨rfl, rfl⟩

theorem calm_onStateChanged (autoMatch : Bool) (old : SessionState) (s : GameSession) :
    Calm s (onStateChanged (F := F) autoMatch old s) := by
  unfold onStateChanged
  split
  · exact calm_requestMatch s
  · exact ⟨rfl, rfl⟩

theorem calm_backToLobby (autoMatch : Bool) (s : GameSession) :
    Calm s (onStateChanged (F := F) autoMatch s.state s.backToLobby) := by
  refine (calm_onStateChanged autoMatch s.state s.backToLobby).trans ?_
  unfold backToLobby
  split <;> rfl

theorem calm_handleRaw (parsers : Parsers F) (autoMatch : Bool) (m : RawMessage)
    (s : GameSession) :
    Calm s ((s.handleRaw parsers autoMatch m).1, (s.handleRaw parsers autoMatch m).2.1) := by
  unfold handleRaw
  split
  · split
    · next code playerId token _ =>
        refine (calm_onStateChanged autoMatch s.state (s.onLoginResp code playerId token)).trans ?_
        unfold onLoginResp
        split <;> rfl
    · exact ⟨rfl, rfl⟩
  split
  · split
    · next roomId _ _ =>
        refine (calm_onStateChanged autoMatch s.state (s.onEnterRoom roomId)).trans ?_
        unfold onEnterRoom
        split <;> rfl
    · exact ⟨rfl, rfl⟩
  split
  · exact ⟨rfl, rfl⟩
  split
  · dsimp only
    split
    · exact (calm_requestLeaderboard 10
        { s with roomId := 0, wasInBattle := false, state := .battleEnded }).trans rfl
    · exact ⟨rfl, rfl⟩
  split
  · exact ⟨rfl, rfl⟩
  · exact ⟨rfl, rfl⟩

theorem calm_transportConnected (account : String) (s : GameSession) :
    Calm s (s.transportConnected (F := F) account) := by
  refine ⟨?_, rfl⟩
  simp only [transportConnected, request]
  split <;> rfl

end GameSession

namespace GameClient

variable {s s' : GameClient F} {r : GameSession × List (ClientMsg F)}

/-- The heartbeats of connection `i`. -/
def beatsOn (i : ℕ) (s : GameClient F) : List ℤ := beats (sentOn i s.sent)

theorem beatsOn_send (i : ℕ) (msgs : List (ClientMsg F)) (hnone : beats msgs = [])
    (s : GameClient F) : (s.send msgs).beatsOn i = s.beatsOn i := by
  unfold send beatsOn
  split
  · split
    · rfl
    · rw [sentOn_append, beats_append]
      split
      · rw [hnone, List.append_nil]
      · exact List.append_nil _
  · rfl

/-- A step that sends no heartbeat: nothing else happens, the connection has
gone, or a new one is up. -/
inductive Pulse (s s' : GameClient F) : Prop where
  | same (hbeats : ∀ i, s'.beatsOn i = s.beatsOn i)
      (hlast : s'.session_.lastHeartbeatMs = s.session_.lastHeartbeatMs)
      (hlive : s'.session_.state.live = s.session_.state.live)
      (hlen : s'.net_.threads.length = s.net_.threads.length)
  | asleep (hbeats : ∀ i, s'.beatsOn i = s.beatsOn i)
      (hlast : s'.session_.lastHeartbeatMs = longMinValue ∨
        s.session_.state.live = false ∧
          s'.session_.lastHeartbeatMs = s.session_.lastHeartbeatMs)
      (hlive : s'.session_.state.live = false)
  | awoken (hbeats : ∀ i, s'.beatsOn i = s.beatsOn i)
      (hlast : s'.session_.lastHeartbeatMs = s.session_.lastHeartbeatMs)
      (hasleep : s.session_.state.live = false)
      (hsilent : s'.beatsOn (s'.net_.threads.length - 1) = [])

/-- When the client showed itself, at a time up to which the clock has
come. -/
structure Paced (now : ℤ) (s : GameClient F) : Prop where
  spaced : ∀ i, Spaced (s.beatsOn i)
  asleep : s.session_.state.live = false → s.session_.lastHeartbeatMs = longMinValue
  last : s.session_.state.live = true →
    (s.session_.lastHeartbeatMs = longMinValue ∧ s.beatsOn (s.net_.threads.length - 1) = []) ∨
      ∃ before, s.beatsOn (s.net_.threads.length - 1) =
        before ++ [s.session_.lastHeartbeatMs] ∧
        0 ≤ s.session_.lastHeartbeatMs ∧ s.session_.lastHeartbeatMs ≤ now

theorem Paced.pulse {now : ℤ} (h : s.Paced now) (hpulse : Pulse s s') : s'.Paced now := by
  cases hpulse with
  | same hbeats hlast hlive hlen =>
      refine ⟨fun i => hbeats i ▸ h.spaced i, fun hs => hlast.trans (h.asleep (hlive ▸ hs)),
        fun hs => ?_⟩
      rw [hbeats, hlast, hlen]
      exact h.last (hlive ▸ hs)
  | asleep hbeats hlast hlive =>
      refine ⟨fun i => hbeats i ▸ h.spaced i, fun _ => ?_, fun hs => ?_⟩
      · exact hlast.elim id fun hsame => hsame.2.trans (h.asleep hsame.1)
      · rw [hlive] at hs
        cases hs
  | awoken hbeats hlast hasleep hsilent =>
      have hmin := hlast.trans (h.asleep hasleep)
      exact ⟨fun i => hbeats i ▸ h.spaced i, fun _ => hmin, fun _ => .inl ⟨hmin, hsilent⟩⟩

theorem Paced.mono {now later : ℤ} (h : s.Paced now) (hle : now ≤ later) : s.Paced later := by
  refine ⟨h.spaced, h.asleep, fun hs => (h.last hs).imp id ?_⟩
  rintro ⟨before, hbeats, hpos, hnow⟩
  exact ⟨before, hbeats, hpos, hnow.trans hle⟩

theorem send_rest (msgs : List (ClientMsg F)) (s : GameClient F) :
    (s.send msgs).session_ = s.session_ ∧ (s.send msgs).net_ = s.net_ := by
  unfold send
  split
  · split <;> exact ⟨rfl, rfl⟩
  · exact ⟨rfl, rfl⟩

theorem pulse_act (hcalm : GameSession.Calm s.session_ r)
    (hlive : r.1.state.live = s.session_.state.live) : Pulse s (s.act r) := by
  obtain ⟨hsession, hnet⟩ := send_rest r.2 { s with session_ := r.1 }
  refine .same (fun i => beatsOn_send i r.2 hcalm.beats { s with session_ := r.1 }) ?_ ?_ ?_
  · rw [act, hsession]
    exact hcalm.last
  · rw [act, hsession]
    exact hlive
  · rw [act, hnet]

theorem pulse_polite (hcalm : GameSession.Calm s.session_ r)
    (hpolite : GameSession.Polite s.session_ r) : Pulse s (s.act r) := by
  refine pulse_act hcalm ?_
  cases hlive : s.session_.state.live with
  | true => exact (hpolite.awake hlive).live
  | false => rw [hpolite.asleep hlive]; exact hlive

theorem pulse_refl (s : GameClient F) : Pulse s s := .same (fun _ => rfl) rfl rfl rfl

/-- Steps that only touch other fields may come before and after. -/
theorem Pulse.congr {t t' : GameClient F} (h : Pulse s s') (hsession : t.session_ = s.session_)
    (hsent : t.sent = s.sent) (hnet : t.net_.threads.length = s.net_.threads.length)
    (hsession' : t'.session_ = s'.session_) (hsent' : t'.sent = s'.sent)
    (hnet' : t'.net_.threads.length = s'.net_.threads.length) : Pulse t t' := by
  have hbeats : ∀ i, t.beatsOn i = s.beatsOn i := fun i => by rw [beatsOn, hsent, beatsOn]
  have hbeats' : ∀ i, t'.beatsOn i = s'.beatsOn i := fun i => by rw [beatsOn, hsent', beatsOn]
  cases h with
  | same hsame hlast hlive hlen =>
      exact .same (fun i => by rw [hbeats', hsame, hbeats]) (by rw [hsession', hlast, hsession])
        (by rw [hsession', hlive, hsession]) (by rw [hnet', hlen, hnet])
  | asleep hsame hlast hlive =>
      exact .asleep (fun i => by rw [hbeats', hsame, hbeats])
        (by rw [hsession', hsession]; exact hlast) (by rw [hsession', hlive])
  | awoken hsame hlast hasleep hsilent =>
      exact .awoken (fun i => by rw [hbeats', hsame, hbeats]) (by rw [hsession', hlast, hsession])
        (by rw [hsession, hasleep]) (by rw [hnet', hbeats', hsilent])

theorem pulse_connect (hstate : s.session_.state = .disconnected) : Pulse s s.connect :=
  .asleep (fun _ => rfl) (.inr ⟨by rw [hstate]; rfl, rfl⟩) rfl

theorem Ok.pulse_pump (h : s.Ok) (parsers : Parsers F) : Pulse s (s.pumpOne parsers) := by
  unfold GameClient.pumpOne
  split
  · next n _ =>
      split
      · next e q hqueue =>
          cases e with
          | disconnected reason => exact .asleep (fun _ => rfl) (.inl rfl) rfl
          | message m =>
              simp only [raise]
              have hlive : s.session_.state.live = true := by
                cases h.phase with
                | away _ hempty => rw [hempty] at hqueue; cases hqueue
                | talking hstate => exact hstate
                | dialling hstate init t hthreads hraised hsilent =>
                    have hlog := h.log (l := []) hthreads (by rw [hraised, List.append_nil])
                    rw [List.nil_append, hqueue] at hlog
                    rcases (hlog ▸ (h.story hthreads).story).first with hfirst | ⟨_, hfirst, -⟩ <;>
                      cases hfirst
              have hacted : Pulse { s with net_ := s.net_.pump 1, pumping := some n } _ :=
                pulse_act (GameSession.calm_handleRaw parsers s.autoMatch m s.session_)
                  ((GameSession.plain_handleRaw parsers s.autoMatch m hlive).live.trans hlive.symm)
              split
              · exact hacted.congr rfl rfl rfl rfl rfl rfl
              · exact hacted.congr rfl rfl rfl rfl rfl rfl
          | connected =>
              simp only [raise]
              have hcalm := GameSession.calm_transportConnected (F := F) s.account s.session_
              have hbeats : ∀ i, ({ s with net_ := s.net_.pump 1, pumping := some n }.act
                  (s.session_.transportConnected s.account)).beatsOn i = s.beatsOn i :=
                fun i => beatsOn_send i _ hcalm.beats _
              obtain ⟨hsession, hnet⟩ := send_rest (s.session_.transportConnected s.account).2
                { s with net_ := s.net_.pump 1, pumping := some n,
                         session_ := (s.session_.transportConnected (F := F) s.account).1 }
              cases h.phase with
              | away _ hempty => rw [hempty] at hqueue; cases hqueue
              | dialling hstate init t hthreads hraised hsilent =>
                  refine .awoken hbeats ?_ (by rw [hstate]; rfl) ?_
                  · rw [GameClient.act, hsession]
                    rfl
                  · have hlen : (s.net_.pump 1).threads.length = init.length + 1 := by
                      show s.net_.threads.length = _
                      rw [hthreads]
                      simp
                    rw [hbeats, GameClient.act, hnet, hlen, Nat.add_sub_cancel, beatsOn, hsilent]
                    rfl
              | talking hstate init t hthreads ms hraised htalk =>
                  have hlog := h.log hthreads hraised
                  rw [hqueue] at hlog
                  rcases (hlog ▸ (h.story hthreads).story).next with ⟨_, hnext⟩ | ⟨_, hnext, -⟩ <;>
                    cases hnext
      · exact .same (fun _ => rfl) rfl rfl rfl
  · exact pulse_refl s

theorem Ok.pulse_click (h : s.Ok) (hclicked : s.clicked = false) (c : Click) :
    Pulse s (s.onClick c) := by
  have hidle : Pulse s { s with clicked := true } := .same (fun _ => rfl) rfl rfl rfl
  cases c with
  | connect account =>
      simp only [GameClient.onClick]
      split
      · next hp =>
          exact Pulse.congr (pulse_connect (h.panel hp hclicked).1) rfl rfl rfl rfl rfl rfl
      · exact hidle
  | requestMatch =>
      simp only [GameClient.onClick]
      split
      · have hacted := pulse_polite (s := { s with clicked := true })
          (GameSession.calm_requestMatch (F := F) s.session_) (GameSession.polite_requestMatch _)
        exact hacted.congr rfl rfl rfl rfl rfl rfl
      · exact hidle
  | backToLobby =>
      simp only [GameClient.onClick]
      split
      · have hacted := pulse_polite (s := { s with clicked := true })
          (GameSession.calm_backToLobby (F := F) s.autoMatch s.session_)
          (GameSession.polite_backToLobby _ _)
        exact hacted.congr rfl rfl rfl rfl rfl rfl
      · exact hidle

theorem Pulse.beats (h : Pulse s s') (i : ℕ) : s'.beatsOn i = s.beatsOn i := by
  cases h with
  | same hbeats => exact hbeats i
  | asleep hbeats => exact hbeats i
  | awoken hbeats => exact hbeats i

variable [Scalar F]

theorem Ok.pulse_update (h : s.Ok) (now : F) :
    Pulse s { (s.forceDrop.reconnect now) with pumping := some 64 } := by
  have hdrop : s.forceDrop = s := by rw [forceDrop, h.drop]; rfl
  rw [hdrop]
  have hreconnect : Pulse s (s.reconnect now) := by
    unfold reconnect
    split_ifs with hlost
    · exact .same (fun _ => rfl) rfl rfl rfl
    · exact Pulse.congr (pulse_connect hlost.2.1) rfl rfl rfl rfl rfl rfl
    · exact pulse_refl s
    · exact .same (fun _ => rfl) rfl rfl rfl
  exact hreconnect.congr rfl rfl rfl rfl rfl rfl

/-- Every step but the end of a frame. -/
theorem Ok.pulse (h : s.Ok) (parsers : Parsers F) {a : GameAct F} (hcivil : s.Civil a)
    (ha : ∀ nowMs now kb, a ≠ .finish nowMs now kb) : Pulse s (s.step parsers a) := by
  cases a with
  | net a =>
      simp only [GameClient.step]
      split
      · next hthread =>
          have hconnect : a ≠ .connect := by rintro rfl; cases hthread
          exact .same (fun _ => rfl) rfl rfl (NetworkClient.length_step a hconnect s.net_)
      · exact pulse_refl s
  | update now =>
      simp only [GameClient.step]
      split
      · exact h.pulse_update now
      · exact pulse_refl s
  | pump => exact h.pulse_pump parsers
  | finish nowMs now kb => exact absurd rfl (ha nowMs now kb)
  | click c =>
      simp only [GameClient.step]
      split
      · exact h.pulse_click hcivil c
      · exact pulse_refl s
  | ui =>
      simp only [GameClient.step]
      split
      · exact .same (fun _ => rfl) rfl rfl rfl
      · exact pulse_refl s
  | drop => exact hcivil.elim

end GameClient

end GameServer.Client
