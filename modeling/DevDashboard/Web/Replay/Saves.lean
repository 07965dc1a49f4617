/-
  File:      DevDashboard/Web/Replay/Saves.lean
  Subject:   SAVES AND TAPES (runtime/types.ts, tape.ts, persistence.ts), AND THEIR JSON.

  A save holds the open segment (its start, its history and the tick to replay to), the closed
  segments of the level, the orb values of live play and the tape. A tape lists what the outside
  world fed a run; its random values are the numerators of their 32-bit fractions.

  `toJson` is the value `JSON.stringify` writes and `JSON.parse` gives back.
-/
import DevDashboard.Web.Replay.Replayer
import DevDashboard.Web.Replay.Validate

namespace DevDashboard.Web.Replay

open Lib

/-! ## 1. Types -/

structure RunStats where
  replays : ℕ
  fromHistory : ℕ
  executed : ℕ
  incidents : ℕ
  retriesUsed : ℕ
  circuitTrips : ℕ
  boostsLost : ℕ
  deriving DecidableEq

/-- `emptyStats`. -/
def emptyStats : RunStats := ⟨0, 0, 0, 0, 0, 0, 0⟩

/-- What live play came to, and how often it was rewound since the segment began. The program does
    not keep this: no JSON holds it and nothing is computed from it. It is what statements about a
    replay compare with. -/
structure Lived where
  state : GameState
  rewinds : ℕ
  deriving DecidableEq

/-- One closed history segment of a level, with the orb values live play saw. -/
structure MontageSegment where
  start : StartInput
  history : List HistoryEvent
  endTick : ℕ
  orbValues : List (ℕ × ℚ)
  lived : Lived
  deriving DecidableEq

/-- A save without its tape. -/
structure SaveBody where
  date : Str
  start : StartInput
  history : List HistoryEvent
  /-- The tick to replay to on resume. -/
  tick : ℕ
  stats : RunStats
  divergedAt : Option ℕ
  segments : List MontageSegment
  orbValues : List (ℕ × ℚ)
  lived : Lived
  deriving DecidableEq

/-- A saved run was resumed at this live tick: the cursors are where its values start. -/
structure Restart where
  liveTick : ℕ
  impureAt : ℕ
  chaosAt : ℕ
  save : SaveBody
  deriving DecidableEq

structure Tape where
  date : Str
  inputs : List (ℕ × PlayerInput)
  impure : List ℕ
  chaos : List ℕ
  restarts : List Restart
  liveTick : ℕ
  deriving DecidableEq

structure Save where
  body : SaveBody
  tape : Tape
  deriving DecidableEq

/-- `emptyTape`. -/
def emptyTape (date : Str) : Tape := ⟨date, [], [], [], [], 0⟩

/-- `quantise`: a value as a 32-bit fraction's numerator. -/
def quantise (v : ℚ) : ℕ := (min (2 ^ 32 - 1) (max 0 ⌊v * 2 ^ 32⌋)).toNat

/-- `toUnit`. -/
def toUnit (u : ℕ) : ℚ := u / 2 ^ 32

/-! ## 2. JSON -/

/-- An object with the given properties. -/
def object (fields : List (String × Json)) : Json := .obj (fields.map fun f => (f.1.toList, f.2))

def text (s : String) : Json := .str s.toList

def count (n : ℕ) : Json := .num n

def PlayerInput.name : PlayerInput → String
  | .jump => "jump"
  | .jumpEnd => "jumpEnd"
  | .slideStart => "slideStart"
  | .slideEnd => "slideEnd"

def InputEvent.toJson (e : InputEvent) : Json :=
  match e.what with
  | .input kind =>
      object [("type", text "Input"), ("tick", count e.tick), ("kind", text kind.name)]
  | .orchestratorStarted => object [("type", text "OrchestratorStarted"), ("tick", count e.tick)]
  | .retryAttempt attempt failedAt =>
      object [("type", text "RetryAttempt"), ("tick", count e.tick), ("attempt", .num attempt),
        ("failedAt", count failedAt)]

def Outcome.typeName : Outcome → String
  | .activityCoinCollected _ => "ActivityCoinCollected"
  | .activityCrateCollected _ _ => "ActivityCrateCollected"
  | .orbTaken _ => "OrbTaken"
  | .circuitBreakerTripped _ => "CircuitBreakerTripped"
  | .boostLost _ => "BoostLost"
  | .fanOut => "FanOut"
  | .fanIn _ => "FanIn"

def OutcomeEvent.toJson (e : OutcomeEvent) : Json :=
  let type := ("type", text e.what.typeName)
  let tick := ("tick", count e.tick)
  let hash := ("hash", count e.hash.toNat)
  match e.what with
  | .activityCrateCollected id result =>
      object [type, tick, ("id", count id), hash, ("result", .num result)]
  | .fanOut => object [type, tick, hash]
  | .fanIn results => object [type, tick, hash, ("results", .arr (results.map count))]
  | .activityCoinCollected id | .orbTaken id | .circuitBreakerTripped id | .boostLost id =>
      object [type, tick, ("id", count id), hash]

def HistoryEvent.toJson : HistoryEvent → Json
  | .input e => e.toJson
  | .outcome e => e.toJson

def StartInput.toJson (s : StartInput) : Json :=
  object [("level", count s.level.val), ("seed", count s.seed.toNat), ("score", count s.score),
    ("elapsed", count s.elapsed), ("distance", .num s.distance), ("boss", .bool s.boss),
    ("retries", count s.retries), ("shield", count s.shield)]

def RunStats.toJson (s : RunStats) : Json :=
  object [("replays", count s.replays), ("fromHistory", count s.fromHistory),
    ("executed", count s.executed), ("incidents", count s.incidents),
    ("retriesUsed", count s.retriesUsed), ("circuitTrips", count s.circuitTrips),
    ("boostsLost", count s.boostsLost)]

def pairsJson (l : List (ℕ × ℚ)) : Json := .arr (l.map fun p => .arr [count p.1, .num p.2])

def MontageSegment.toJson (s : MontageSegment) : Json :=
  object [("start", s.start.toJson), ("history", .arr (s.history.map HistoryEvent.toJson)),
    ("endTick", count s.endTick), ("orbValues", pairsJson s.orbValues)]

/-- The properties of a save but its tape. -/
def SaveBody.fields (b : SaveBody) : List (String × Json) :=
  [("version", count 2), ("date", .str b.date), ("start", b.start.toJson),
    ("history", .arr (b.history.map HistoryEvent.toJson)), ("tick", count b.tick),
    ("stats", b.stats.toJson), ("divergedAt", b.divergedAt.elim .null count),
    ("segments", .arr (b.segments.map MontageSegment.toJson)),
    ("orbValues", pairsJson b.orbValues)]

def SaveBody.toJson (b : SaveBody) : Json := object b.fields

def Restart.toJson (r : Restart) : Json :=
  object [("liveTick", count r.liveTick), ("impureAt", count r.impureAt),
    ("chaosAt", count r.chaosAt), ("save", r.save.toJson)]

def Tape.toJson (t : Tape) : Json :=
  object [("v", count 1), ("date", .str t.date),
    ("inputs", .arr (t.inputs.map fun i => .arr [count i.1, text i.2.name])),
    ("impure", .arr (t.impure.map count)), ("chaos", .arr (t.chaos.map count)),
    ("restarts", .arr (t.restarts.map Restart.toJson)), ("liveTick", count t.liveTick)]

def Save.toJson (s : Save) : Json := object (s.body.fields ++ [("tape", s.tape.toJson)])

/-- `parseSave`. -/
def parseSave (raw : Str) : Option Json :=
  if raw = [] then none else (Json.parse raw).bind fun data => if isSave data then some data else none

end DevDashboard.Web.Replay
