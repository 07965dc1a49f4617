/-
  File:      DevDashboard/Web/Replay/Step.lean
  Subject:   ONE TICK OF THE REPLAY GAME (engine/step.ts).

  `step` advances the state by one tick: runtime inputs, the hats' movement, scrolling, spawning,
  collisions, the merge of a fan-out and the end of the level. The source writes into a copy of the
  state; here every part is a function of the state before it. Only collisions reach outside: an
  orb asks `impure`, a crate asks for its activity's result (`Port`).
-/
import DevDashboard.Lib.Asking
import DevDashboard.Web.Replay.Engine

namespace DevDashboard.Web.Replay

open Lib

/-- The questions of a step. -/
inductive Port where
  | impure
  | crateValue (id : ℕ)
  deriving DecidableEq

/-! ## 1. Constants and the initial state -/

def gravity : ℚ := 1 / 2
def jumpVy : ℚ := -9
def playerW : ℚ := 30
def playerH : ℚ := 16
def slideH : ℚ := 9
def hazardInsetX : ℚ := 3
def boostTicks : ℕ := 10 * tickHz
def bossTicks : ℕ := 15 * tickHz
def shieldFull : ℕ := 10
def graceResume : ℕ := 60
def graceRetry : ℕ := 60
def graceBoost : ℕ := 60
def graceBarge : ℕ := 30
def fanLanes : ℕ := 2
def fanClearPx : ℚ := 200
def laneScale : ℚ := 3 / 4
def laneSpawnX : ℚ := viewW / laneScale + 10
def gateW : ℚ := 12
def minGap : ℚ := 150
def gapRange : ℚ := 130
def bossGapScale : ℚ := 4 / 5
def firstSpawnAt : ℚ := 240
def pitHitDepth : ℚ := 14
def fallLeadTicks : ℚ := 60
def rackGravity : ℚ := 1
def pitMinW : ℚ := 30
def pitRangeW : ℚ := 30
def coyoteTicks : ℕ := 6
def jumpBufferTicks : ℕ := 6
def jumpCutVy : ℚ := -3

/-- `RACKS`. -/
def racks : List EntityKind := [.low, .high, .tall, .falling]

/-- `HAZARDS`. -/
def hazards : List EntityKind := racks ++ [.pit]

/-- `SIZE`. -/
def size : EntityKind → ℚ × ℚ
  | .low => (14, 20)
  | .high => (22, 30)
  | .coin => (10, 10)
  | .orb => (12, 12)
  | .crate => (14, 14)
  | .tall => (16, 44)
  | .falling => (18, 24)
  | .pit => (pitMinW, 0)
  | .fanout => (gateW, groundY)

/-- `ORDER`. -/
def kindOrder : List EntityKind := [.low, .high, .coin, .orb, .crate, .tall, .falling, .pit]

/-- `newPlayer`. -/
def newPlayer : Player := ⟨groundY, 0, false, false, 0, 0⟩

/-- `firstGate`; with gates every 0 px the place is not a number, and no gate ever comes. -/
def firstGate (A : Arith) (cfg : LevelConfig) (distance : ℚ) : Option ℚ :=
  match cfg.fanOut with
  | none => none
  | some f =>
      if f.everyPx = 0 then none
      else some (A.mul (A.add ⌊A.div distance f.everyPx⌋ 1) f.everyPx)

/-- `initialState`. -/
def initialState (A : Arith) (levels : LevelTable) (start : StartInput) : GameState where
  level := start.level
  tick := 0
  elapsed := start.elapsed
  rng := start.seed
  score := start.score
  multiplier := 1
  multUntil := 0
  player := newPlayer
  scroll := 0
  distance := start.distance
  nextSpawnAt := firstSpawnAt
  nextId := 1
  entities := []
  bossUntil := if start.boss then bossTicks else 0
  retries := start.retries
  shield := start.shield
  graceUntil := 0
  failedAt := 0
  fan := none
  nextGateAt := firstGate A (levels start.level) start.distance
  status := .running

/-- `continueAsNew`, before its patch. -/
def continueAsNew (A : Arith) (s : GameState) : StartInput where
  level := s.level
  seed := seedFrom s.rng
  score := s.score
  elapsed := s.elapsed
  distance := A.add s.distance s.scroll
  boss := false
  retries := s.retries
  shield := s.shield

/-! ## 2. Movement -/

/-- `overPit`: the pit under the foot centre. -/
def overPit (A : Arith) (entities : List Entity) : Option Entity :=
  entities.find? fun e =>
    e.kind = .pit ∧ e.x ≤ playerX + playerW / 2 ∧ playerX + playerW / 2 < A.add e.x e.w

/-- `launch`. -/
def launch (p : Player) : Player :=
  { p with vy := jumpVy, sliding := false, coyoteUntil := 0, jumpBufferUntil := 0 }

/-- One input of `movePlayer`; `atGround` is where the hat was before the first one. -/
def press (atGround : Bool) (tick : ℕ) (p : Player) : InputKind → Player
  | .player .jump =>
      let p := { p with jumpHeld := true }
      -- Standing, or on a pit's edge: either way at ground height.
      if atGround ∨ tick < p.coyoteUntil then launch p
      else { p with jumpBufferUntil := tick + jumpBufferTicks }
  | .player .jumpEnd =>
      { p with jumpHeld := false, vy := if p.vy < jumpCutVy then jumpCutVy else p.vy }
  | .player .slideStart => { p with sliding := true }
  | .player .slideEnd => { p with sliding := false }
  | .resume => p
  | .retry => p

/-- Gravity and landing for a hat in the air. -/
def fall (A : Arith) (p : Player) (tick : ℕ) (entities : List Entity) : Player :=
  let vy := A.add p.vy gravity
  let y := A.add p.y vy
  if 0 ≤ vy ∧ p.y ≤ groundY ∧ groundY ≤ y ∧ overPit A entities = none then
    let p := { p with y := groundY, vy := 0 }
    if tick < p.jumpBufferUntil then launch p else p
  else { p with y := y, vy := vy }

/-- `movePlayer`. -/
def movePlayer (A : Arith) (p : Player) (inputs : List InputKind) (tick : ℕ)
    (entities : List Entity) : Player :=
  let pit := overPit A entities
  let p := inputs.foldl (press (decide (p.y = groundY ∧ p.vy = 0)) tick) p
  let grounded := p.y = groundY ∧ p.vy = 0
  if grounded ∧ pit = none then p
  else
    -- Walking off an edge opens the coyote window once.
    let p := if grounded then { p with coyoteUntil := tick + coyoteTicks } else p
    fall A p tick entities

/-- `updateFalling`. -/
def updateFalling (A : Arith) (speed : ℚ) (e : Entity) : Entity :=
  if e.kind ≠ .falling ∨ A.mul fallLeadTicks speed < A.sub e.x playerX then e
  else
    let floor := A.sub groundY e.h
    if floor ≤ e.y then e
    else
      let vy := A.add (e.vy.getD 0) rackGravity
      let y := min floor (A.add e.y vy)
      { e with y := y, vy := some (if floor ≤ y then 0 else vy) }

/-- `scrollTrack`, of the entities of a track. -/
def scrollEntities (A : Arith) (speed : ℚ) (entities : List Entity) : List Entity :=
  (entities.map fun e => updateFalling A speed { e with x := A.sub e.x speed }).filter
    fun e => 0 < A.add e.x e.w

/-! ## 3. Spawning -/

/-- The loop of `chooseKind`. -/
def pickKind (A : Arith) (weights : EntityKind → ℚ) : ℚ → List EntityKind → EntityKind
  | _, [] => .coin
  | x, k :: ks => if x < weights k then k else pickKind A weights (A.sub x (weights k)) ks

/-- `chooseKind`. -/
def chooseKind (A : Arith) (weights : EntityKind → ℚ) (r : ℚ) : EntityKind :=
  pickKind A weights (A.mul r (kindOrder.foldl (fun n k => A.add n (weights k)) 0)) kindOrder

/-- `spawnY`. -/
def spawnY (kind : EntityKind) (r : ℚ) : ℚ :=
  match kind with
  | .low => groundY - 20
  | .high => groundY - 42
  | .tall => groundY - 44
  | .falling => -(size .falling).2
  | .pit => groundY
  | .coin | .orb => if r < 1 / 2 then groundY - 24 else groundY - 70
  | .crate | .fanout => groundY - 60

/-- `spawn`; a pit takes its width from the roll. -/
def spawn (A : Arith) (kind : EntityKind) (id : ℕ) (x yRoll : ℚ) : Entity where
  id := id
  kind := kind
  x := x
  y := spawnY kind yRoll
  w := if kind = .pit then pitMinW + ⌊A.mul yRoll (pitRangeW + 1)⌋ else (size kind).1
  h := (size kind).2
  taken := false
  vy := if kind = .falling then some 0 else none

/-- `roll`: the three rolls for kind, height and gap, and the next generator state. -/
def roll (rng : BitVec 32) : ℚ × ℚ × ℚ × BitVec 32 :=
  let kindRoll := nextRandom rng
  let yRoll := nextRandom kindRoll.1
  let gapRoll := nextRandom yRoll.1
  (kindRoll.2, yRoll.2, gapRoll.2, gapRoll.1)

/-- One turn of the loop of `spawnMain`. -/
def spawnOne (A : Arith) (weights : EntityKind → ℚ) (speed : ℚ) (s : GameState) : GameState :=
  let r := roll s.rng
  { s with
    rng := r.2.2.2
    entities := s.entities ++ [spawn A (chooseKind A weights r.1) s.nextId spawnX r.2.1]
    nextId := s.nextId + 1
    nextSpawnAt := A.add s.nextSpawnAt
      (A.mul (A.mul (A.add minGap (A.mul r.2.2.1 gapRange))
        (if 0 < s.bossUntil then bossGapScale else 1)) (A.div speed 4)) }

/-- The gate of a fan-out. -/
def gateEntity (id : ℕ) : Entity := ⟨id, .fanout, spawnX, 0, gateW, groundY, false, none⟩

/-- Whether the hat runs up to a gate: nothing else appears then. -/
def nearGate (A : Arith) (cfg : LevelConfig) (s : GameState) : Bool :=
  cfg.fanOut.isSome && decide (s.bossUntil = 0) &&
    s.nextGateAt.any fun gate => decide (A.sub gate fanClearPx ≤ A.add s.distance s.scroll)

/-- `spawnMain`. -/
def spawnMain (A : Arith) (cfg : LevelConfig) (speed : ℚ) (s : GameState) : GameState :=
  if nearGate A cfg s then
    if (s.nextGateAt.any fun gate => decide (gate ≤ A.add s.distance s.scroll)) ∧
        ∀ e ∈ s.entities, e.kind ≠ .fanout then
      { s with entities := s.entities ++ [gateEntity s.nextId], nextId := s.nextId + 1 }
    else s
  else
    loopWhile (fun s => decide (s.nextSpawnAt ≤ s.scroll))
      (spawnOne A (if 0 < s.bossUntil then cfg.bossWeights else cfg.weights) speed) A.turns s

/-- What the lanes' loops write to: the generator, the next id and the lane. -/
structure LaneSpawn where
  rng : BitVec 32
  nextId : ℕ
  lane : Lane

/-- One turn of the loop of `spawnLanes`. -/
def spawnInLane (A : Arith) (cfg : LevelConfig) (speed : ℚ) (c : LaneSpawn) : LaneSpawn :=
  let r := roll c.rng
  { rng := r.2.2.2
    nextId := c.nextId + 1
    lane := { c.lane with
      entities := c.lane.entities ++
        [spawn A (chooseKind A cfg.laneWeights r.1) c.nextId laneSpawnX r.2.1]
      nextSpawnAt := A.add c.lane.nextSpawnAt
        (A.mul (A.add minGap (A.mul r.2.2.1 gapRange)) (A.div speed 4)) } }

/-- The lanes one after another. -/
def spawnAll (A : Arith) (cfg : LevelConfig) (speed scroll : ℚ) :
    BitVec 32 → ℕ → List Lane → BitVec 32 × ℕ × List Lane
  | rng, nextId, [] => (rng, nextId, [])
  | rng, nextId, lane :: lanes =>
      let c := loopWhile (fun c : LaneSpawn => decide (c.lane.nextSpawnAt ≤ scroll))
        (spawnInLane A cfg speed) A.turns ⟨rng, nextId, lane⟩
      let rest := spawnAll A cfg speed scroll c.rng c.nextId lanes
      (rest.1, rest.2.1, c.lane :: rest.2.2)

/-- `spawnLanes`; `fan` is the fan-out in progress. -/
def spawnLanes (A : Arith) (cfg : LevelConfig) (speed : ℚ) (fan : Fan) (s : GameState) :
    GameState :=
  -- Early enough that everything passes the hats before the merge.
  if A.mul (fan.until_ - s.tick : ℤ) speed ≤ laneSpawnX - playerX + fanClearPx then s
  else
    let r := spawnAll A cfg speed s.scroll s.rng s.nextId fan.lanes
    { s with rng := r.1, nextId := r.2.1, fan := some { fan with lanes := r.2.2 } }

/-- `enterGate`. -/
def enterGate (A : Arith) (cfg : LevelConfig) (s : GameState) : GameState × List Outcome :=
  match s.entities.find? fun e => e.kind = .fanout, cfg.fanOut with
  | some gate, some f =>
      if playerX < gate.x then (s, [])
      else
        ({ s with
            fan := some ⟨s.tick + f.ticks,
              List.replicate fanLanes ⟨s.player, [], A.add s.scroll fanClearPx, 0⟩⟩
            entities := [] },
          [.fanOut])
  | _, _ => (s, [])

/-- `fanIn`. -/
def fanIn (A : Arith) (cfg : LevelConfig) (fan : Fan) (s : GameState) : GameState :=
  { s with
    player := (fan.lanes.head?.map Lane.player).getD s.player
    entities := []
    fan := none
    nextGateAt := cfg.fanOut.map fun f => A.add (A.add s.distance s.scroll) f.everyPx
    nextSpawnAt := A.add s.scroll fanClearPx }

/-! ## 4. Collisions -/

structure Box where
  x : ℚ
  y : ℚ
  w : ℚ
  h : ℚ

/-- `overlaps`. -/
def overlaps (A : Arith) (a b : Box) : Bool :=
  decide (a.x < A.add b.x b.w ∧ b.x < A.add a.x a.w ∧ a.y < A.add b.y b.h ∧ b.y < A.add a.y a.h)

/-- `bounce`. -/
def bounce (p : Player) : Player := { p with vy := jumpVy, sliding := false }

/-- What a pass over the tracks carries from one entity to the next. -/
structure Pass where
  s : GameState
  events : List Outcome
  hitDone : Bool

/-- What a hit does: to the state, and whether something absorbed it. -/
structure Hit where
  s : GameState
  events : List Outcome
  absorbed : Bool
  taken : Bool

/-- `resolveHit`, of the rack `id`, or of a pit with id 0. -/
def resolveHit (cfg : LevelConfig) (s : GameState) (pit : Bool) (id : ℕ) : Hit :=
  if s.tick < s.graceUntil then ⟨s, [], true, false⟩
  else if cfg.shieldEnabled ∧ shieldFull ≤ s.shield then
    ⟨{ s with shield := 0, graceUntil := s.tick + graceBarge }, [.circuitBreakerTripped id],
      true, !pit⟩
  else if 1 < s.multiplier then
    ⟨{ s with multiplier := 1, multUntil := s.tick, graceUntil := s.tick + graceBoost },
      [.boostLost id], true, false⟩
  else if 0 < s.retries then
    ⟨{ s with status := .retry, failedAt := s.tick }, [], false, false⟩
  else ⟨{ s with status := .failed }, [], false, false⟩

/-- `boost`. -/
def boost (s : GameState) : GameState :=
  { s with multiplier := 3, multUntil := s.tick + boostTicks }

/-- `pickup`, of what is neither a rack nor a pit nor a gate. -/
def pickup (cfg : LevelConfig) (e : Entity) (c : Pass) : Asking Port ℚ Pass :=
  match e.kind with
  | .coin =>
      .done
        { c with
          s := { c.s with
            score := c.s.score + c.s.multiplier
            shield := if cfg.shieldEnabled then min shieldFull (c.s.shield + 1) else c.s.shield }
          events := c.events ++ [.activityCoinCollected e.id] }
  | .orb =>
      .ask .impure fun v =>
        .done
          { c with
            s := boost { c.s with rng := mix c.s.rng v }
            events := c.events ++ [.orbTaken e.id] }
  | _ =>
      .ask (.crateValue e.id) fun result =>
        let s := boost { c.s with rng := mix c.s.rng result }
        .done
          { c with
            s := { s with score := s.score + s.multiplier }
            events := c.events ++ [.activityCrateCollected e.id result] }

/-- The loop of `collide`, for one entity of a track; `coins` counts those of its lane. Once the
    status has changed the loop is left: the entities that follow stay as they are. -/
def touch (A : Arith) (cfg : LevelConfig) (box hazardBox : Box) (e : Entity) (coins : ℕ)
    (c : Pass) : Asking Port ℚ (Pass × ℕ × Entity) :=
  if c.s.status ≠ .running then .done (c, coins, e)
  else if e.taken ∨ e.kind = .pit ∨ e.kind = .fanout then .done (c, coins, e)
  else if overlaps A (if e.kind ∈ racks then hazardBox else box) ⟨e.x, e.y, e.w, e.h⟩ = false then
    .done (c, coins, e)
  else if e.kind ∈ racks then
    if c.hitDone then .done (c, coins, e)
    else
      let h := resolveHit cfg c.s false e.id
      .done (⟨h.s, c.events ++ h.events, true⟩, coins, { e with taken := h.taken })
  else
    pickup cfg e c >>= fun c' =>
      .done (c', if e.kind = .coin then coins + 1 else coins, { e with taken := true })

/-- The loop of `collide` over the entities of a track. -/
def meet (A : Arith) (cfg : LevelConfig) (box hazardBox : Box) :
    List Entity → ℕ → Pass → Asking Port ℚ (Pass × ℕ × List Entity)
  | [], coins, c => .done (c, coins, [])
  | e :: es, coins, c =>
      touch A cfg box hazardBox e coins c >>= fun r =>
        meet A cfg box hazardBox es r.2.1 r.1 >>= fun rest =>
          .done (rest.1, rest.2.1, r.2.2 :: rest.2.2)

/-- `collide`, of one track. -/
def meetTrack (A : Arith) (cfg : LevelConfig) (p : Player) (entities : List Entity) (coins : ℕ)
    (c : Pass) : Asking Port ℚ (Pass × Player × ℕ × List Entity) :=
  let height := if p.sliding ∧ groundY ≤ p.y then slideH else playerH
  let box : Box := ⟨playerX, A.sub p.y height, playerW, height⟩
  let hazardBox := { box with x := box.x + hazardInsetX, w := box.w - 2 * hazardInsetX }
  let start : Pass × Player :=
    if c.hitDone = false ∧ groundY + pitHitDepth ≤ p.y then
      let h := resolveHit cfg c.s true 0
      (⟨h.s, c.events ++ h.events, true⟩, if h.absorbed then bounce p else p)
    else (c, p)
  meet A cfg box hazardBox entities coins start.1 >>= fun r => .done (r.1, start.2, r.2.1, r.2.2)

/-- `collide`, of the lanes of a fan-out. -/
def meetLanes (A : Arith) (cfg : LevelConfig) :
    List Lane → Pass → Asking Port ℚ (Pass × List Lane)
  | [], c => .done (c, [])
  | lane :: lanes, c =>
      meetTrack A cfg lane.player lane.entities lane.coins c >>= fun r =>
        meetLanes A cfg lanes r.1 >>= fun rest =>
          .done (rest.1, { lane with player := r.2.1, coins := r.2.2.1, entities := r.2.2.2 } ::
            rest.2)

/-- `collide`. -/
def collide (A : Arith) (cfg : LevelConfig) (s : GameState) :
    Asking Port ℚ (GameState × List Outcome) :=
  match s.fan with
  | none =>
      meetTrack A cfg s.player s.entities 0 ⟨s, [], false⟩ >>= fun r =>
        .done ({ r.1.s with player := r.2.1, entities := r.2.2.2 }, r.1.events)
  | some fan =>
      meetLanes A cfg fan.lanes ⟨s, [], false⟩ >>= fun r =>
        .done ({ r.1.s with fan := some { fan with lanes := r.2 } }, r.1.events)

/-! ## 5. The tick -/

structure StepResult where
  state : GameState
  events : List OutcomeEvent

/-- The boost wears off. -/
def endBoost (s : GameState) : GameState :=
  if 1 < s.multiplier ∧ s.multUntil ≤ s.tick then { s with multiplier := 1 } else s

/-- A resume or a retry among the inputs. -/
def applyRuntime (s : GameState) : InputKind → GameState
  | .resume => { s with graceUntil := max s.graceUntil (s.tick + graceResume) }
  | .retry =>
      { s with
        retries := s.retries - 1
        graceUntil := max s.graceUntil (s.tick + graceRetry) }
  | .player _ => s

/-- The hats of all tracks move. -/
def moveTracks (A : Arith) (inputs : List InputKind) (s : GameState) : GameState :=
  match s.fan with
  | none => { s with player := movePlayer A s.player inputs s.tick s.entities }
  | some fan =>
      { s with
        fan := some { fan with
          lanes := fan.lanes.map fun l =>
            { l with player := movePlayer A l.player inputs s.tick l.entities } } }

/-- All tracks scroll. -/
def scrollTracks (A : Arith) (speed : ℚ) (s : GameState) : GameState :=
  match s.fan with
  | none =>
      { s with scroll := A.add s.scroll speed, entities := scrollEntities A speed s.entities }
  | some fan =>
      { s with
        scroll := A.add s.scroll speed
        fan := some { fan with
          lanes := fan.lanes.map fun l =>
            { l with entities := scrollEntities A speed l.entities } } }

/-- Lanes spawn while there are lanes; otherwise the track does, and a gate may be reached. -/
def spawnTracks (A : Arith) (cfg : LevelConfig) (speed : ℚ) (s : GameState) :
    GameState × List Outcome :=
  match s.fan with
  | none => enterGate A cfg (spawnMain A cfg speed s)
  | some fan => (spawnLanes A cfg speed fan s, [])

/-- The tick up to its collisions. -/
def beforeCollide (A : Arith) (cfg : LevelConfig) (inputs : List InputKind) (s : GameState) :
    GameState × List Outcome :=
  let s := moveTracks A inputs (inputs.foldl applyRuntime (endBoost s))
  let speed := speedAt A cfg s.elapsed
  spawnTracks A cfg speed (scrollTracks A speed s)

/-- The end of a fan-out. -/
def merge (A : Arith) (cfg : LevelConfig) (s : GameState) : GameState × List Outcome :=
  match s.fan with
  | some fan =>
      if s.status = .running ∧ fan.until_ ≤ s.tick + 1 then
        (fanIn A cfg fan s, [.fanIn (fan.lanes.map Lane.coins)])
      else (s, [])
  | none => (s, [])

/-- The end of the level. -/
def finish (A : Arith) (cfg : LevelConfig) (s : GameState) : GameState :=
  if s.status = .running ∧ s.fan = none ∧
      cfg.length.any fun length => decide (length ≤ A.add s.distance s.scroll) then
    { s with status := .levelDone }
  else s

/-- The tick after its collisions, with the events so far. -/
def afterCollide (A : Arith) (cfg : LevelConfig) (s : GameState) (events : List Outcome) :
    StepResult :=
  let m := merge A cfg s
  let s' := finish A cfg m.1
  let s' := { s' with tick := s'.tick + 1, elapsed := s'.elapsed + 1 }
  ⟨s', (events ++ m.2).map fun what => ⟨s.tick, hashState A s', what⟩⟩

/-- `step`. -/
def step (A : Arith) (levels : LevelTable) (prev : GameState) (inputs : List InputKind) :
    Asking Port ℚ StepResult :=
  if prev.status ≠ .running then .done ⟨prev, []⟩
  else
    let cfg := levels prev.level
    let b := beforeCollide A cfg inputs prev
    collide A cfg b.1 >>= fun c => .done (afterCollide A cfg c.1 (b.2 ++ c.2))

end DevDashboard.Web.Replay
