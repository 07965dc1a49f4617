/-
  File:      DevDashboard/Web/Replay/Engine.lean
  Subject:   THE DATA OF THE REPLAY GAME'S ENGINE (engine/types.ts, levels.ts, rng.ts, seed.ts,
             hash.ts).

  Ticks, ids and counts are naturals. Positions, speeds and rolls are rationals, and what the
  program computes with them is what its arithmetic makes of it (`Arith`): the results here hold
  whatever a sum or a product is rounded to. Scaling by a power of two, floors and comparisons are
  exact in JavaScript and so they are here.

  `Infinity`, which is a length or the place of a gate that never comes, is `none`.
-/
import DevDashboard.Lib.Str
import Mathlib.Data.Rat.Floor

namespace DevDashboard.Web.Replay

open Lib

/-! ## 1. Numbers -/

/-- What the program's arithmetic makes of two numbers. A spawn loop of the source runs until
    enough is spawned; `turns` is a number of turns that is enough for all of them. -/
structure Arith where
  add : ℚ → ℚ → ℚ
  sub : ℚ → ℚ → ℚ
  mul : ℚ → ℚ → ℚ
  div : ℚ → ℚ → ℚ
  turns : ℕ

/-- Arithmetic without rounding. -/
def Arith.exact (turns : ℕ) : Arith := ⟨(· + ·), (· - ·), (· * ·), (· / ·), turns⟩

/-- `Math.round`. -/
def mathRound (x : ℚ) : ℤ := ⌊x + 1 / 2⌋

/-- `while (more(s)) s = turn(s)`. -/
def loopWhile {σ : Type} (more : σ → Bool) (turn : σ → σ) : ℕ → σ → σ
  | 0, s => s
  | n + 1, s => if more s then loopWhile more turn n (turn s) else s

theorem loopWhile_inv {σ : Type} {more : σ → Bool} {turn : σ → σ} {I : σ → Prop}
    (h : ∀ s, I s → I (turn s)) (n : ℕ) {s : σ} (hs : I s) : I (loopWhile more turn n s) := by
  induction n generalizing s with
  | zero => exact hs
  | succ n ih =>
      rw [loopWhile]
      split
      · exact ih (h s hs)
      · exact hs

/-! ## 2. Types -/

def tickHz : ℕ := 60
def viewW : ℚ := 480
def groundY : ℚ := 230
def playerX : ℚ := 80
def spawnX : ℚ := 490

abbrev Level := Fin 6

/-- Keys the player presses. -/
inductive PlayerInput where
  | jump
  | jumpEnd
  | slideStart
  | slideEnd
  deriving DecidableEq

/-- Everything `step` accepts as an input. -/
inductive InputKind where
  | player (kind : PlayerInput)
  | resume
  | retry
  deriving DecidableEq

inductive EntityKind where
  | low
  | high
  | coin
  | orb
  | crate
  | tall
  | falling
  | pit
  | fanout
  deriving DecidableEq

structure Entity where
  id : ℕ
  kind : EntityKind
  /-- Left edge. -/
  x : ℚ
  /-- Top edge. -/
  y : ℚ
  w : ℚ
  h : ℚ
  taken : Bool
  /-- Vertical speed; only falling racks move vertically. -/
  vy : Option ℚ
  deriving DecidableEq

structure Player where
  /-- Feet position. -/
  y : ℚ
  vy : ℚ
  sliding : Bool
  jumpHeld : Bool
  coyoteUntil : ℕ
  jumpBufferUntil : ℕ
  deriving DecidableEq

/-- One parallel branch during fan-out. -/
structure Lane where
  player : Player
  entities : List Entity
  nextSpawnAt : ℚ
  coins : ℕ
  deriving DecidableEq

/-- The input a history segment starts from. -/
structure StartInput where
  level : Level
  seed : BitVec 32
  score : ℕ
  elapsed : ℕ
  distance : ℚ
  boss : Bool
  retries : ℕ
  shield : ℕ
  deriving DecidableEq

inductive Status where
  | running
  | failed
  | levelDone
  | retry
  deriving DecidableEq

/-- A fan-out in progress. -/
structure Fan where
  until_ : ℕ
  lanes : List Lane
  deriving DecidableEq

structure GameState where
  level : Level
  /-- Ticks since the segment's start. -/
  tick : ℕ
  elapsed : ℕ
  rng : BitVec 32
  score : ℕ
  multiplier : ℕ
  multUntil : ℕ
  player : Player
  scroll : ℚ
  distance : ℚ
  nextSpawnAt : ℚ
  nextId : ℕ
  entities : List Entity
  bossUntil : ℕ
  retries : ℕ
  shield : ℕ
  graceUntil : ℕ
  failedAt : ℕ
  fan : Option Fan
  nextGateAt : Option ℚ
  status : Status
  deriving DecidableEq

/-- What a runtime or player input is. -/
inductive InputOf where
  | input (kind : PlayerInput)
  /-- Recorded whenever a replay resumes live play. -/
  | orchestratorStarted
  /-- Recorded after a retry's rewind. -/
  | retryAttempt (attempt : ℤ) (failedAt : ℕ)
  deriving DecidableEq

/-- History events that are fed back to `step` as inputs. -/
structure InputEvent where
  tick : ℕ
  what : InputOf
  deriving DecidableEq

/-- What `step` reports. -/
inductive Outcome where
  | activityCoinCollected (id : ℕ)
  | activityCrateCollected (id : ℕ) (result : ℚ)
  | orbTaken (id : ℕ)
  /-- `id` is the smashed rack, or 0 for a pit. -/
  | circuitBreakerTripped (id : ℕ)
  | boostLost (id : ℕ)
  | fanOut
  | fanIn (results : List ℕ)
  deriving DecidableEq

/-- Events produced by `step`; a replay checks each one. -/
structure OutcomeEvent where
  tick : ℕ
  hash : BitVec 32
  what : Outcome
  deriving DecidableEq

inductive HistoryEvent where
  | input (e : InputEvent)
  | outcome (e : OutcomeEvent)
  deriving DecidableEq

/-- The tick of an event. -/
def HistoryEvent.tick : HistoryEvent → ℕ
  | .input e => e.tick
  | .outcome e => e.tick

@[simp] theorem HistoryEvent.tick_input (e : InputEvent) : (HistoryEvent.input e).tick = e.tick :=
  rfl

@[simp] theorem HistoryEvent.tick_outcome (e : OutcomeEvent) :
    (HistoryEvent.outcome e).tick = e.tick := rfl

/-! ## 3. Levels -/

structure FanOutConfig where
  everyPx : ℚ
  ticks : ℕ

structure LevelConfig where
  /-- Scroll distance that completes the level; `none` for endless. -/
  length : Option ℚ
  speed : ℚ
  ramp : ℚ
  maxSpeed : ℚ
  weights : EntityKind → ℚ
  bossWeights : EntityKind → ℚ
  laneWeights : EntityKind → ℚ
  /-- `false`: a crash loses everything. -/
  durable : Bool
  chaosMeanTicks : Option ℚ
  chaosFloorTicks : Option ℚ
  firstCrashTicks : Option (ℚ × ℚ)
  scriptedCrashAt : Option ℚ
  crashAfterPickup : List EntityKind
  retries : ℕ
  shieldEnabled : Bool
  fanOut : Option FanOutConfig

abbrev LevelTable := Level → LevelConfig

/-- Weights as the tables of the source list them; what is missing weighs nothing. -/
def weigh (ws : List (EntityKind × ℚ)) (k : EntityKind) : ℚ := (ws.lookup k).getD 0

/-- `BOSS`. -/
def bossTable : EntityKind → ℚ := weigh [(.low, 3), (.high, 3)]

/-- `LANES`. -/
def lanesTable : EntityKind → ℚ := weigh [(.low, 2), (.pit, 2), (.coin, 4)]

/-- A durable level of the source's table, with what all of them have. -/
def durableLevel (length : Option ℚ) (speed ramp maxSpeed : ℚ) (weights : List (EntityKind × ℚ)) :
    LevelConfig where
  length := length
  speed := speed
  ramp := ramp
  maxSpeed := maxSpeed
  weights := weigh weights
  bossWeights := bossTable
  laneWeights := lanesTable
  durable := true
  chaosMeanTicks := some 1200
  chaosFloorTicks := none
  firstCrashTicks := none
  scriptedCrashAt := none
  crashAfterPickup := []
  retries := 3
  shieldEnabled := true
  fanOut := none

/-- `LEVELS`. -/
def gameLevels : LevelTable
  | 0 =>
      { durableLevel none 3 0 3 [(.low, 2), (.coin, 3)] with
        durable := false, chaosMeanTicks := none, scriptedCrashAt := some 900
        retries := 0, shieldEnabled := false }
  | 1 =>
      { durableLevel (some 6300) (7 / 2) 0 (7 / 2) [(.low, 3), (.high, 2), (.coin, 4), (.pit, 2)] with
        firstCrashTicks := some (480, 720) }
  | 2 =>
      { durableLevel (some 8000) 4 0 4
          [(.low, 3), (.high, 2), (.coin, 3), (.orb, 2), (.pit, 1), (.falling, 2)] with
        crashAfterPickup := [.orb] }
  | 3 =>
      { durableLevel (some 9000) (9 / 2) 0 (9 / 2)
          [(.low, 2), (.high, 2), (.coin, 3), (.orb, 1), (.crate, 2), (.pit, 1), (.falling, 1),
            (.tall, 2)] with
        crashAfterPickup := [.orb, .crate] }
  | 4 =>
      { durableLevel (some 9000) (9 / 2) 0 (9 / 2)
          [(.low, 2), (.high, 2), (.coin, 3), (.crate, 1), (.pit, 2), (.falling, 1), (.tall, 1)] with
        fanOut := some ⟨2500, 600⟩ }
  | 5 =>
      { durableLevel none 5 (1 / 2) 9
          [(.low, 2), (.high, 2), (.coin, 3), (.orb, 1), (.crate, 1), (.pit, 2), (.falling, 1),
            (.tall, 1)] with
        chaosFloorTicks := some 480, fanOut := some ⟨4000, 600⟩ }

/-- `CRASH_AFTER_PICKUP`. -/
def crashAfterPickupTicks : ℚ × ℚ := (60, 300)

def speedAt (A : Arith) (cfg : LevelConfig) (elapsed : ℕ) : ℚ :=
  min cfg.maxSpeed (A.add cfg.speed (A.mul cfg.ramp (A.div elapsed 3600)))

def chaosMeanTicks (A : Arith) (cfg : LevelConfig) (elapsed : ℕ) : Option ℚ :=
  cfg.chaosMeanTicks.map fun mean =>
    match cfg.chaosFloorTicks with
    | none => mean
    | some floor => max floor (A.sub mean (A.div elapsed 10))

/-! ## 4. Random numbers -/

/-- `nextRandom`: the next state and a value in [0, 1). -/
def nextRandom (s : BitVec 32) : BitVec 32 × ℚ :=
  let state := s + 0x6d2b79f5#32
  let t := (state ^^^ (state >>> 15)) * (state ||| 1#32)
  let t := t ^^^ (t + (t ^^^ (t >>> 7)) * (t ||| 61#32))
  (state, ((t ^^^ (t >>> 14)).toNat : ℚ) / 4294967296)

/-- `mix`: folds an outside value into the generator state. -/
def mix (s : BitVec 32) (v : ℚ) : BitVec 32 := s ^^^ BitVec.ofInt 32 ⌊v * 4294967296⌋

/-- `seedFrom`. -/
def seedFrom (s : BitVec 32) : BitVec 32 := BitVec.ofInt 32 ⌊(nextRandom s).2 * 4294967296⌋

/-- `charCodeAt`: the UTF-16 units of a text. -/
def charCodes (s : Str) : List ℕ :=
  s.flatMap fun c =>
    if c.toNat < 0x10000 then [c.toNat]
    else [0xD800 + (c.toNat - 0x10000) / 0x400, 0xDC00 + (c.toNat - 0x10000) % 0x400]

/-- One byte into an FNV-1a hash. -/
def fnv (h : BitVec 32) (byte : BitVec 32) : BitVec 32 := (h ^^^ byte) * 0x01000193#32

/-- `seedForDate`. -/
def seedForDate (date : Str) : BitVec 32 :=
  (charCodes ("replay:".toList ++ date)).foldl (fun h c => fnv h (BitVec.ofNat 32 c &&& 0xff#32))
    0x811c9dc5#32

/-! ## 5. The state hash -/

def EntityKind.number : EntityKind → ℕ
  | .low => 1
  | .high => 2
  | .coin => 3
  | .orb => 4
  | .crate => 5
  | .tall => 6
  | .falling => 7
  | .pit => 8
  | .fanout => 9

def Status.number : Status → ℕ
  | .running => 0
  | .failed => 1
  | .levelDone => 2
  | .retry => 3

/-- `q(n) | 0`. -/
def quantised (A : Arith) (n : ℚ) : BitVec 32 := BitVec.ofInt 32 (mathRound (A.mul n 100))

/-- A count, `| 0`. -/
def word (n : ℕ) : BitVec 32 := BitVec.ofNat 32 n

def playerParts (A : Arith) (p : Player) : List (BitVec 32) :=
  [quantised A p.y, quantised A p.vy, word p.sliding.toNat, word p.jumpHeld.toNat,
    word p.coyoteUntil, word p.jumpBufferUntil]

def entityParts (A : Arith) (entities : List Entity) : List (BitVec 32) :=
  word entities.length :: entities.flatMap fun e =>
    [word e.id, word e.kind.number, quantised A e.x, quantised A e.y, quantised A (e.vy.getD 0),
      word e.taken.toNat]

def fanParts (A : Arith) : Option Fan → List (BitVec 32)
  | none => [word 0]
  | some fan =>
      word 1 :: word fan.until_ :: word fan.lanes.length :: fan.lanes.flatMap fun lane =>
        playerParts A lane.player ++ quantised A lane.nextSpawnAt :: word lane.coins ::
          entityParts A lane.entities

/-- The parts that are hashed, in their order; an infinite place folds to 0. -/
def hashParts (A : Arith) (s : GameState) : List (BitVec 32) :=
  [word s.level.val, word s.tick, word s.elapsed, s.rng, quantised A s.score, word s.multiplier,
      word s.multUntil] ++
    playerParts A s.player ++
    [quantised A s.scroll, quantised A s.distance, quantised A s.nextSpawnAt, word s.nextId,
      word s.bossUntil, word s.status.number, word s.retries, word s.shield, word s.graceUntil,
      word s.failedAt, s.nextGateAt.elim 0#32 (quantised A)] ++
    entityParts A s.entities ++ fanParts A s.fan

/-- The four bytes of a part, lowest first. -/
def fnvWord (h v : BitVec 32) : BitVec 32 :=
  [0, 8, 16, 24].foldl (fun h k => fnv h ((v >>> k) &&& 0xff#32)) h

/-- `hashState`. -/
def hashState (A : Arith) (s : GameState) : BitVec 32 :=
  (hashParts A s).foldl fnvWord 0x811c9dc5#32

end DevDashboard.Web.Replay
