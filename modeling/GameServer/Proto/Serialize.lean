import GameServer.Lib.Wire
import GameServer.Proto.Messages
import GameServer.Proto.ProtobufCodec
import Mathlib.Algebra.Order.BigOperators.Group.List

/-!
The messages of `proto/game.proto` as bytes, and how many bytes these are.

`serialize` writes the fields of a message as the compiler for the schema
generates it. How a floating-point number is turned into bits is left to a
`FloatFormat`; only whether the bits are zero matters for the length. The
echo of a heartbeat carries its one field: fields unknown to the schema are
not modelled.
-/

namespace GameServer.Proto

open GameServer.Lib GameServer.Lib.Wire

/-- The bits of a number in a field of type `float` and of type `double`. -/
structure FloatFormat (F : Type) where
  float : F → UInt32
  double : F → UInt64

variable {F : Type} (fmt : FloatFormat F)

def PlayerState.serialize (p : PlayerState F) : List UInt8 :=
  uint64Field 1 p.playerId ++ floatField 2 (fmt.float p.x) ++ floatField 3 (fmt.float p.y) ++
    int64Field 4 p.hp ++ uint32Field 5 p.lastInputSeq

def ProjectileState.serialize (q : ProjectileState F) : List UInt8 :=
  uint64Field 1 q.projectileId ++ uint64Field 2 q.ownerId ++ floatField 3 (fmt.float q.x) ++
    floatField 4 (fmt.float q.y) ++ floatField 5 (fmt.float q.velocityX) ++
    floatField 6 (fmt.float q.velocityY)

def StateSnapshot.serialize (snap : StateSnapshot F) : List UInt8 :=
  uint32Field 1 snap.tick ++ boolField 2 snap.full ++
    snap.players.flatMap (fun p => messageField 3 (p.serialize fmt)) ++
    snap.projectiles.flatMap (fun q => messageField 4 (q.serialize fmt)) ++
    packedField 5 snap.removedProjectileIds

def leaderboardEntry (e : String × F) : List UInt8 :=
  stringField 1 e.1 ++ doubleField 2 (fmt.double e.2)

namespace ServerMsg

def serialize : ServerMsg F → List UInt8
  | .loginResp code playerId sessionToken =>
      int64Field 1 code ++ uint64Field 2 playerId ++ stringField 3 sessionToken
  | .enterRoom roomId playerIds => uint64Field 1 roomId ++ packedField 2 playerIds
  | .stateSnapshot snap => snap.serialize fmt
  | .battleEnd winnerId => uint64Field 1 winnerId
  | .heartbeat clientMs => int64Field 1 clientMs
  | .leaderboardResp entries => entries.flatMap fun e => messageField 1 (leaderboardEntry fmt e)

/-- The ids of `proto/MsgId.h`. -/
def msgId : ServerMsg F → UInt16
  | .heartbeat _ => 2
  | .loginResp _ _ _ => 4
  | .enterRoom _ _ => 11
  | .stateSnapshot _ => 21
  | .battleEnd _ => 22
  | .leaderboardResp _ => 31

/-- The frame that is passed to `TcpConnection::send`. -/
def frame (msg : ServerMsg F) : List UInt8 := encode ⟨msg.msgId, msg.serialize fmt⟩

end ServerMsg

/-- The body of a `LoginReq`. -/
def loginReq (account : String) : List UInt8 := stringField 1 account

theorem length_playerState (p : PlayerState F) : (p.serialize fmt).length ≤ 38 := by
  have hid := length_uint64Field_le (show 1 < 16 by decide) p.playerId
  have hx := length_floatField (show 2 < 16 by decide) (fmt.float p.x)
  have hy := length_floatField (show 3 < 16 by decide) (fmt.float p.y)
  have hhp := length_int64Field (show 4 < 16 by decide) p.hp
  have hseq := length_uint32Field (show 5 < 16 by decide) p.lastInputSeq
  simp only [PlayerState.serialize, List.length_append]
  omega

/-- What a projectile takes in a snapshot. -/
def projectileCost (projectileId ownerId : ℕ) : ℕ :=
  24 + (varint projectileId).length + (varint ownerId).length

theorem projectileCost_le (projectileId ownerId : ℕ) : projectileCost projectileId ownerId ≤ 44 := by
  have hid := length_varint_le projectileId
  have howner := length_varint_le ownerId
  simp only [projectileCost]
  omega

theorem length_projectileState (q : ProjectileState F) :
    (messageField 4 (q.serialize fmt)).length ≤ projectileCost q.projectileId q.ownerId := by
  have hid := length_uint64Field (show 1 < 16 by decide) q.projectileId
  have howner := length_uint64Field (show 2 < 16 by decide) q.ownerId
  have hx := length_floatField (show 3 < 16 by decide) (fmt.float q.x)
  have hy := length_floatField (show 4 < 16 by decide) (fmt.float q.y)
  have hvx := length_floatField (show 5 < 16 by decide) (fmt.float q.velocityX)
  have hvy := length_floatField (show 6 < 16 by decide) (fmt.float q.velocityY)
  have hbody : (q.serialize fmt).length + 2 ≤ projectileCost q.projectileId q.ownerId := by
    simp only [ProjectileState.serialize, List.length_append, projectileCost]
    omega
  have hcost := projectileCost_le q.projectileId q.ownerId
  have hfield := length_messageField_of_lt (show 4 < 16 by decide)
    (show (q.serialize fmt).length < 128 by omega)
  omega

theorem length_heartbeat (clientMs : ℤ) :
    ((ServerMsg.heartbeat clientMs : ServerMsg F).serialize fmt).length ≤ 65534 :=
  (length_int64Field (by decide) clientMs).trans (by decide)

theorem length_battleEnd (winnerId : ℕ) :
    ((ServerMsg.battleEnd winnerId : ServerMsg F).serialize fmt).length ≤ 65534 :=
  (length_uint64Field_le (by decide) winnerId).trans (by decide)

theorem length_loginResp (code : ℤ) (playerId : ℕ) {token : String}
    (h : token.utf8ByteSize ≤ 32) :
    ((ServerMsg.loginResp code playerId token : ServerMsg F).serialize fmt).length ≤ 65534 := by
  have hcode := length_int64Field (show 1 < 16 by decide) code
  have hid := length_uint64Field_le (show 2 < 16 by decide) playerId
  have htoken := length_stringField (show 3 < 16 by decide) token
  have hvarint := length_varint_le token.utf8ByteSize
  simp only [messageCost] at htoken
  simp only [ServerMsg.serialize, List.length_append]
  omega

theorem length_enterRoom (roomId : ℕ) {playerIds : List ℕ} (h : playerIds.length ≤ 2) :
    ((ServerMsg.enterRoom roomId playerIds : ServerMsg F).serialize fmt).length ≤ 65534 := by
  have hroom := length_uint64Field_le (show 1 < 16 by decide) roomId
  have hids := length_packedField (show 2 < 16 by decide) playerIds
  have hsum : (playerIds.map fun n => (varint n).length).sum ≤ playerIds.length * 10 := by
    simpa using List.sum_le_card_nsmul (playerIds.map fun n => (varint n).length) 10
      (by simpa using fun n _ => length_varint_le n)
  simp only [ServerMsg.serialize, List.length_append]
  omega

/-! ### Snapshots and leaderboards -/

/-- The bytes of one field written for every element of a list. -/
theorem length_flatMap_le {α : Type} {l : List α} {f : α → List UInt8} {cost : α → ℕ}
    (h : ∀ a ∈ l, (f a).length ≤ cost a) : (l.flatMap f).length ≤ (l.map cost).sum := by
  rw [List.length_flatMap]
  exact List.sum_le_sum h

/-- What the projectiles and the tombstones of a snapshot take. -/
def StateSnapshot.cost (snap : StateSnapshot F) : ℕ :=
  (snap.projectiles.map fun q => projectileCost q.projectileId q.ownerId).sum +
    (snap.removedProjectileIds.map fun id => (varint id).length).sum

theorem length_stateSnapshot {snap : StateSnapshot F} (hplayers : snap.players.length ≤ 2) :
    ((ServerMsg.stateSnapshot snap).serialize fmt).length ≤ 99 + snap.cost := by
  have htick := length_uint32Field (show 1 < 16 by decide) snap.tick
  have hfull := length_boolField (show 2 < 16 by decide) snap.full
  have hremoved := length_packedField (show 5 < 16 by decide) snap.removedProjectileIds
  have hstates : (snap.players.flatMap fun p => messageField 3 (p.serialize fmt)).length ≤
      (snap.players.map fun _ => 40).sum := by
    refine length_flatMap_le fun p _ => ?_
    have hbody := length_playerState fmt p
    have hfield := length_messageField_of_lt (show 3 < 16 by decide)
      (show (p.serialize fmt).length < 128 by omega)
    omega
  have hshots : (snap.projectiles.flatMap fun q => messageField 4 (q.serialize fmt)).length ≤
      (snap.projectiles.map fun q => projectileCost q.projectileId q.ownerId).sum :=
    length_flatMap_le fun q _ => length_projectileState fmt q
  have hsum : (snap.players.map fun _ => 40).sum = snap.players.length * 40 := by simp
  simp only [ServerMsg.serialize, StateSnapshot.serialize, List.length_append, StateSnapshot.cost]
  omega

/-- What an account takes in a leaderboard, with its score. -/
def entryCost (account : String) : ℕ := messageCost (messageCost account.utf8ByteSize + 9)

theorem lt_entryCost (account : String) : account.utf8ByteSize + 9 < entryCost account := by
  simp only [entryCost, messageCost]
  omega

theorem length_leaderboardEntry {e : String × F} (h : e.1.utf8ByteSize < 2 ^ 32) :
    (messageField 1 (leaderboardEntry fmt e)).length ≤ entryCost e.1 := by
  have haccount := length_stringField (show 1 < 16 by decide) e.1
  have hscore := length_doubleField (show 2 < 16 by decide) (fmt.double e.2)
  have hvarint := length_varint_le e.1.utf8ByteSize
  rw [length_messageField (by decide)]
  refine messageCost_mono ?_ ?_
  · simp only [leaderboardEntry, List.length_append]
    omega
  · simp only [messageCost]
    omega

theorem length_leaderboardResp {entries : List (String × F)}
    (h : (entries.map fun e => entryCost e.1).sum ≤ 65534) :
    ((ServerMsg.leaderboardResp entries).serialize fmt).length ≤ 65534 := by
  refine le_trans (length_flatMap_le fun e he => length_leaderboardEntry fmt ?_) h
  have hone : entryCost e.1 ≤ 65534 :=
    (List.single_le_sum (by simp) _ (List.mem_map_of_mem he)).trans h
  have hlt := lt_entryCost e.1
  omega

/-! ### The longest account -/

end GameServer.Proto
