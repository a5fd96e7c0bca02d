import GameServer.Lib.Scalar
import GameServer.Lib.UnorderedMap
import GameServer.Proto.Messages

/-!
The battle simulation of `src/game/BattleSim.{h,cc}`, over any floating-point
arithmetic `F`.

One `step` moves the players, lets the attack cooldowns run down, fires, and
then advances the projectiles that existed when the step began. The maps are
visited in the order of their entries; a new projectile may reshuffle the
projectile table, which the choices `ks` stand for.
-/

namespace GameServer.Game

open GameServer.Lib GameServer.Proto
open Scalar

variable {F : Type} [Scalar F]

namespace BattleSim

def kArena : F := lit 100

def kSpeed : F := lit 20

def kDamage : ℤ := 25

def kAttackCd : F := lit 500

def kMaxHp : ℤ := 100

def kProjectileSpeed : F := lit 60

def kProjectileRadius : F := lit 3

def kProjectileRange : F := lit 65

structure P (F : Type) where
  id : ℕ
  x : F
  y : F
  hp : ℤ
  seq : ℕ
  cdMs : F
  facingX : F
  facingY : F
  input : PlayerInput F
  hasInput : Bool

def P.alive (p : P F) : Bool := 0 < p.hp

structure Projectile (F : Type) where
  id : ℕ
  ownerId : ℕ
  x : F
  y : F
  vx : F
  vy : F
  traveled : F

/-- `std::set::insert`, on the increasing list of the elements. -/
def setInsert (x : ℕ) : List ℕ → List ℕ
  | [] => [x]
  | y :: ys => if x < y then x :: y :: ys else if x = y then y :: ys else y :: setInsert x ys

@[simp] theorem mem_setInsert {x z : ℕ} {l : List ℕ} : z ∈ setInsert x l ↔ z = x ∨ z ∈ l := by
  induction l with
  | nil => simp [setInsert]
  | cons y ys ih =>
      simp only [setInsert]
      split
      · simp
      · split
        · next h => simp [h]
        · simp only [List.mem_cons, ih]
          tauto

end BattleSim

open BattleSim

structure BattleSim (F : Type) where
  players : UnorderedMap ℕ (P F) := ∅
  projectiles : UnorderedMap ℕ (Projectile F) := ∅
  removedProjectileIds : List ℕ := []
  nextProjectileId : ℕ := 1

namespace BattleSim

def addPlayer (ks : List ℕ) (id : ℕ) (x y : F) (s : BattleSim F) : BattleSim F :=
  let p : P F :=
    { id := id, x := x, y := y, hp := kMaxHp, seq := 0, cdMs := lit 0
      facingX := if le x (kArena * lit (1 / 2)) then lit 1 else lit (-1)
      facingY := lit 0
      input := { seq := 0, moveX := lit 0, moveY := lit 0, attack := false }
      hasInput := false }
  { s with players := UnorderedMap.reorder ks (s.players.insert id p) }

def applyInput (id : ℕ) (input : PlayerInput F) (s : BattleSim F) : BattleSim F :=
  { s with
    players := s.players.modify id fun p =>
      { p with input := input, hasInput := true, seq := input.seq } }

/-! ### The phases of a step -/

/-- Turn towards `(mx, my)` and go there; the flag tells whether the
position changed. -/
def moveBy (dt mx my : F) (p : P F) : P F × Bool :=
  let nx := clamp (p.x + mx * kSpeed * dt) (lit 0) kArena
  let ny := clamp (p.y + my * kSpeed * dt) (lit 0) kArena
  if !eq nx p.x || !eq ny p.y then
    ({ p with facingX := mx, facingY := my, x := nx, y := ny }, true)
  else ({ p with facingX := mx, facingY := my }, false)

/-- Phase 1 for one player. -/
def movePlayer (dt : F) (p : P F) : P F × Bool :=
  if !p.alive || !p.hasInput then (p, false)
  else
    let mx := p.input.moveX
    let my := p.input.moveY
    let len := sqrt (mx * mx + my * my)
    if lt len (lit (1 / 10 ^ 6)) then (p, false)
    else if lt (lit 1) len then moveBy dt (mx / len) (my / len) p
    else moveBy dt mx my p

def moveAll (dt : F) (s : BattleSim F) : BattleSim F × List ℕ :=
  ({ s with players := s.players.mapVal fun _ p => (movePlayer dt p).1 },
    s.players.entries.foldl (fun changed e =>
      if (movePlayer dt e.2).2 then setInsert e.1 changed else changed) [])

/-- Phase 2. -/
def coolAll (dtMs : ℕ) (s : BattleSim F) : BattleSim F :=
  { s with
    players := s.players.mapVal fun _ p => { p with cdMs := max (lit 0) (p.cdMs - lit dtMs) } }

/-- The nearest living player other than `id`; the first one visited wins a tie. -/
def nearest (players : UnorderedMap ℕ (P F)) (id : ℕ) (p : P F) : Option (P F) × F :=
  players.entries.foldl (fun acc e =>
    if e.1 = id || !e.2.alive then acc
    else
      let d := hypot (e.2.x - p.x) (e.2.y - p.y)
      if lt d acc.2 then (some e.2, d) else acc) (none, infinity)

/-- The direction of a shot. -/
def aim (p : P F) : Option (P F) → F × F
  | none => (p.facingX, p.facingY)
  | some target =>
      let dx := target.x - p.x
      let dy := target.y - p.y
      let len := hypot dx dy
      if lt (lit (1 / 10 ^ 6)) len then (dx / len, dy / len) else (dx, dy)

/-- The projectile that player `id` fires. -/
def shot (players : UnorderedMap ℕ (P F)) (projectileId id : ℕ) (p : P F) : Projectile F :=
  let d := aim p (nearest players id p).1
  { id := projectileId, ownerId := id
    x := p.x + d.1 * lit 2, y := p.y + d.2 * lit 2
    vx := d.1 * kProjectileSpeed, vy := d.2 * kProjectileSpeed
    traveled := lit 0 }

/-- Phase 3 for one player. -/
def attackOne (s : BattleSim F) (id : ℕ) : BattleSim F :=
  match s.players.lookup id with
  | none => s
  | some p =>
      if !p.alive || !p.hasInput || !p.input.attack || lt (lit 0) p.cdMs then s
      else
        { s with
          projectiles := s.projectiles.insert s.nextProjectileId
            (shot s.players s.nextProjectileId id p)
          nextProjectileId := s.nextProjectileId + 1
          players := s.players.modify id fun p => { p with cdMs := kAttackCd } }

def attackAll (ks : List ℕ) (s : BattleSim F) : BattleSim F :=
  let s := s.players.keys.foldl attackOne s
  { s with projectiles := s.projectiles.reorder ks }

/-- How a projectile passes a target during `dt`: the parameter of the
closest point of its path, and whether that point is within the hit radius. -/
def pass (dt : F) (projectile : Projectile F) (target : P F) : F × Bool :=
  let oldX := projectile.x
  let oldY := projectile.y
  let segX := oldX + projectile.vx * dt - oldX
  let segY := oldY + projectile.vy * dt - oldY
  let segLenSq := segX * segX + segY * segY
  let t :=
    if lt (lit (1 / 10 ^ 6)) segLenSq then
      clamp (((target.x - oldX) * segX + (target.y - oldY) * segY) / segLenSq) (lit 0) (lit 1)
    else lit 0
  let distanceX := target.x - (oldX + segX * t)
  let distanceY := target.y - (oldY + segY * t)
  (t, le (distanceX * distanceX + distanceY * distanceY) (kProjectileRadius * kProjectileRadius))

/-- The player a projectile hits, with the key it was found under. -/
def findHit (dt : F) (players : UnorderedMap ℕ (P F)) (projectile : Projectile F) :
    Option (ℕ × P F) × F :=
  players.entries.foldl (fun acc e =>
    if e.1 = projectile.ownerId || !e.2.alive then acc
    else
      let r := pass dt projectile e.2
      if r.2 && lt r.1 acc.2 then (some (e.1, e.2), r.1) else acc) (none, infinity)

/-- A projectile that hit nobody, at the end of its way. -/
def fly (dt : F) (projectile : Projectile F) : Projectile F :=
  let newX := projectile.x + projectile.vx * dt
  let newY := projectile.y + projectile.vy * dt
  let segX := newX - projectile.x
  let segY := newY - projectile.y
  { projectile with
    x := newX, y := newY
    traveled := projectile.traveled + sqrt (segX * segX + segY * segY) }

/-- Out of range or out of the arena. -/
def spent (projectile : Projectile F) : Bool :=
  le kProjectileRange projectile.traveled || lt projectile.x (lit 0) ||
    lt kArena projectile.x || lt projectile.y (lit 0) || lt kArena projectile.y

def removeProjectile (id : ℕ) (s : BattleSim F) : BattleSim F :=
  { s with
    projectiles := s.projectiles.erase id
    removedProjectileIds := s.removedProjectileIds ++ [id] }

/-- Phase 4 for one projectile. -/
def advanceOne (dt : F) (acc : BattleSim F × List ℕ) (projectileId : ℕ) :
    BattleSim F × List ℕ :=
  match acc.1.projectiles.lookup projectileId with
  | none => acc
  | some projectile =>
      match (findHit dt acc.1.players projectile).1 with
      | some (key, hit) =>
          (removeProjectile projectileId
            { acc.1 with
              players := acc.1.players.modify key fun p =>
                { p with hp := Max.max 0 (p.hp - kDamage) } },
            setInsert hit.id acc.2)
      | none =>
          let s := { acc.1 with
            projectiles := acc.1.projectiles.modify projectileId (fly dt) }
          (if spent (fly dt projectile) then removeProjectile projectileId s else s, acc.2)

/-- Advance by `dtMs`; the list is that of the players whose position or hp
changed. -/
def step (ks : List ℕ) (dtMs : ℕ) (s : BattleSim F) : BattleSim F × List ℕ :=
  let dt : F := lit dtMs / lit 1000
  let projectilesToAdvance := s.projectiles.keys
  let (s₁, changed) := moveAll dt { s with removedProjectileIds := [] }
  projectilesToAdvance.foldl (advanceOne dt) (attackAll ks (coolAll dtMs s₁), changed)

def winnerOrZero (s : BattleSim F) : ℕ :=
  let r := s.players.entries.foldl (fun (acc : ℕ × ℕ) e =>
    if e.2.alive then (e.1, acc.2 + 1) else acc) (0, 0)
  if r.2 = 1 then r.1 else 0

/-- An id that is not in the table leaves the message as it was created. -/
def fillState (s : BattleSim F) (id : ℕ) : PlayerState F :=
  match s.players.lookup id with
  | none => { playerId := 0, x := lit 0, y := lit 0, hp := 0, lastInputSeq := 0 }
  | some p => { playerId := p.id, x := p.x, y := p.y, hp := p.hp, lastInputSeq := p.seq }

def fillProjectileState (s : BattleSim F) (id : ℕ) : ProjectileState F :=
  match s.projectiles.lookup id with
  | none =>
      { projectileId := 0, ownerId := 0, x := lit 0, y := lit 0
        velocityX := lit 0, velocityY := lit 0 }
  | some q =>
      { projectileId := q.id, ownerId := q.ownerId, x := q.x, y := q.y
        velocityX := q.vx, velocityY := q.vy }

def playerIds (s : BattleSim F) : List ℕ := s.players.keys

def projectileIds (s : BattleSim F) : List ℕ := s.projectiles.keys

def takeRemovedProjectileIds (s : BattleSim F) : List ℕ × BattleSim F :=
  (s.removedProjectileIds, { s with removedProjectileIds := [] })

end BattleSim

end GameServer.Game
