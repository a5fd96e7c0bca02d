import Mathlib.Data.Int.Notation
import Mathlib.Data.Nat.Notation

/-!
The messages of `proto/game.proto`, with `F` for the floating-point fields.
-/

namespace GameServer.Proto

structure PlayerInput (F : Type) where
  seq : ℕ
  moveX : F
  moveY : F
  attack : Bool
deriving DecidableEq

structure PlayerState (F : Type) where
  playerId : ℕ
  x : F
  y : F
  hp : ℤ
  lastInputSeq : ℕ
deriving DecidableEq

structure ProjectileState (F : Type) where
  projectileId : ℕ
  ownerId : ℕ
  x : F
  y : F
  velocityX : F
  velocityY : F
deriving DecidableEq

structure StateSnapshot (F : Type) where
  tick : ℕ
  full : Bool
  players : List (PlayerState F)
  projectiles : List (ProjectileState F)
  removedProjectileIds : List ℕ := []
deriving DecidableEq

/-- What a client sends. -/
inductive ClientMsg (F : Type) where
  | loginReq (account : String)
  | reconnectReq (playerId : ℕ) (sessionToken : String)
  | matchReq (playerId : ℕ)
  | playerInput (input : PlayerInput F)
  | heartbeat (clientMs : ℤ)
  | leaderboardReq (topN : ℕ)
deriving DecidableEq

/-- What the server sends. -/
inductive ServerMsg (F : Type) where
  | loginResp (code : ℤ) (playerId : ℕ) (sessionToken : String)
  | enterRoom (roomId : ℕ) (playerIds : List ℕ)
  | stateSnapshot (snap : StateSnapshot F)
  | battleEnd (winnerId : ℕ)
  | heartbeat (clientMs : ℤ)
  | leaderboardResp (entries : List (String × F))
deriving DecidableEq

/-- A client does nothing with the message but raise an event. -/
def ServerMsg.inert {F : Type} : ServerMsg F → Bool
  | .stateSnapshot _ | .leaderboardResp _ | .heartbeat _ => true
  | _ => false

def ServerMsg.isLoginResp {F : Type} : ServerMsg F → Bool
  | .loginResp _ _ _ => true
  | _ => false

end GameServer.Proto
