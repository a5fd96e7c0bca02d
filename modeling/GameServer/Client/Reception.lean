import GameServer.Client.FrameParser
import GameServer.Game.Outgoing

/-!
What the server sends, at the client that receives it.

The limit on the length of a frame is enforced where frames are decoded, by
the server for what clients send and by the client for what the server
sends. `ProtobufCodec::encode` writes any length. As long as the steps of a
run are `roomy` every frame is legal all the same, and no client finds its
stream illegal. Otherwise it is not: an account as long as a `LoginReq` can
carry does not fit into the `LeaderboardResp` that is to show it, and one
battle is enough to get it there.
-/

namespace GameServer.Client

open GameServer.Lib GameServer.Proto GameServer.Game

variable {F : Type}

variable [Scalar F]

/-- Two players with the same account are paired and one shoots the other.
The result is stored, and the winner asks for the leaderboard. -/
def battle (account : String) : List (LobbyEvent (Ext ℚ)) :=
  [.login 1 account (genToken (1, 2)) 0 [], .login 2 account (genToken (3, 4)) 0 [], .matchReq 1 [],
    .matchReq 2 [], .roomTask 1, .input 1 ⟨1, .fin 0, .fin 0, true⟩, .roomTask 1] ++
  List.replicate 43 (.roomTick 1 []) ++
  [.roomTask 1, .roomEnd, .storeTask [], .storeTask [], .storeTask [], .leaderboard 1 10]

/-- The battle with the leaderboard that Redis has after it. -/
def reported (account : String) : List (LobbyEvent (Ext ℚ)) :=
  battle account ++ [.storeTask [(account, Scalar.lit 1)]]

end GameServer.Client
