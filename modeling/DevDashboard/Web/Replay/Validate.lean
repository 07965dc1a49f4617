/-
  File:      DevDashboard/Web/Replay/Validate.lean
  Subject:   WHAT THE REPLAY GAME ACCEPTS FROM OUTSIDE (runtime/validate.ts, `isTape` of
             runtime/tape.ts, `parseSave` of runtime/persistence.ts).

  A save or a tape comes back from storage or from a run code as a value of unknown shape. The
  validators look at its properties one by one; a missing property is `undefined`, which no test
  takes for a number, a text, an array or an object.

  The numbers of a value are finite, so `Number.isFinite` says nothing more of them.
-/
import DevDashboard.Lib.Json
import Mathlib.Algebra.Order.Ring.Rat

namespace DevDashboard.Web.Replay

open Lib

/-! ## 1. Tests of one value -/

/-- `v[name]` of an object, `undefined` where it is missing. -/
abbrev prop (name : String) (v : Json) : Option Json := v.field? name.toList

/-- The value is a number and `p` holds of it. -/
def isNumWith (p : ℚ → Bool) : Option Json → Bool
  | some (.num x) => p x
  | _ => false

/-- `isNum`. -/
def isNum (v : Option Json) : Bool := isNumWith (fun _ => true) v

def isText (p : Str → Bool) : Option Json → Bool
  | some (.str s) => p s
  | _ => false

def isBool : Option Json → Bool
  | some (.bool _) => true
  | _ => false

def isNull : Option Json → Bool
  | some .null => true
  | _ => false

/-- `isObj`: an array is one as well, but it has none of the properties asked for. -/
def isObj : Json → Bool
  | .obj _ => true
  | .arr _ => true
  | _ => false

/-- `Array.isArray(v) && v.every(p)`. -/
def isArrayOf (p : Json → Bool) : Option Json → Bool
  | some (.arr items) => items.all p
  | _ => false

/-- The items of an array. -/
def items : Option Json → List Json
  | some (.arr vs) => vs
  | _ => []

/-- The number of a property, where it is one. -/
def number (v : Option Json) : Option ℚ :=
  match v with
  | some (.num x) => some x
  | _ => none

/-- A text that is one of these. -/
def isOneOf (names : List String) (v : Option Json) : Bool :=
  isText (fun s => decide (s ∈ names.map String.toList)) v

def isDecimalDigit (c : Char) : Bool := '0' ≤ c && c ≤ '9'

/-- `/^\d{4}-\d{2}-\d{2}$/`. -/
def isDateText (s : Str) : Bool :=
  match s with
  | [y1, y2, y3, y4, '-', m1, m2, '-', d1, d2] =>
      [y1, y2, y3, y4, m1, m2, d1, d2].all isDecimalDigit
  | _ => false

/-- `isDate`. -/
def isDate (v : Option Json) : Bool := isText isDateText v

/-! ## 2. Saves -/

/-- `isStart`. -/
def isStart (v : Json) : Bool :=
  isObj v && isNumWith (fun x => decide (x ∈ [0, 1, 2, 3, 4, 5])) (prop "level" v) &&
    isNum (prop "seed" v) && isNum (prop "score" v) && isNum (prop "elapsed" v) &&
    isNum (prop "distance" v) && isBool (prop "boss" v) &&
    isNumWith (fun x => decide (0 ≤ x)) (prop "retries" v) &&
    isNumWith (fun x => decide (0 ≤ x)) (prop "shield" v)

/-- The keys of the player. -/
def playerInputs : List String := ["jump", "jumpEnd", "slideStart", "slideEnd"]

/-- `isEvent`. -/
def isEvent (v : Json) : Bool :=
  isObj v && isNumWith (fun x => decide (0 ≤ x)) (prop "tick" v) &&
    ((isOneOf ["Input"] (prop "type" v) && isOneOf playerInputs (prop "kind" v)) ||
      isOneOf ["OrchestratorStarted"] (prop "type" v) ||
      (isOneOf ["RetryAttempt"] (prop "type" v) && isNum (prop "attempt" v) &&
        isNum (prop "failedAt" v)) ||
      (isOneOf ["CircuitBreakerTripped", "BoostLost", "OrbTaken", "ActivityCoinCollected"]
        (prop "type" v) && isNum (prop "id" v) && isNum (prop "hash" v)) ||
      (isOneOf ["FanOut"] (prop "type" v) && isNum (prop "hash" v)) ||
      (isOneOf ["FanIn"] (prop "type" v) && isNum (prop "hash" v) &&
        isArrayOf (fun x => isNum (some x)) (prop "results" v)) ||
      (isOneOf ["ActivityCrateCollected"] (prop "type" v) && isNum (prop "id" v) &&
        isNum (prop "hash" v) && isNum (prop "result" v)))

/-- `STAT_KEYS`. -/
def statKeys : List String :=
  ["replays", "fromHistory", "executed", "incidents", "retriesUsed", "circuitTrips", "boostsLost"]

/-- `isStats`. -/
def isStats (v : Json) : Bool := isObj v && statKeys.all fun k => isNum (prop k v)

/-- A pair of numbers. -/
def isPair : Json → Bool
  | .arr [a, b] => isNum (some a) && isNum (some b)
  | _ => false

/-- `isPairs`. -/
def isPairs (v : Option Json) : Bool := isArrayOf isPair v

/-- `isSegment`. -/
def isSegment (v : Json) : Bool :=
  isObj v && (prop "start" v).any isStart && isArrayOf isEvent (prop "history" v) &&
    isNum (prop "endTick" v) && isPairs (prop "orbValues" v)

/-- `isInputEvent`. -/
def isInputEvent (v : Json) : Bool :=
  isOneOf ["Input", "OrchestratorStarted", "RetryAttempt"] (prop "type" v)

/-- Every number is at least the one before it. -/
def isOrdered : List ℚ → Bool
  | x :: y :: xs => decide (x ≤ y) && isOrdered (y :: xs)
  | _ => true

/-- Ordered by tick; outcomes before the tick of the save, runtime inputs at most at it. -/
def isOrderedHistory (tick : ℚ) (history : List Json) : Bool :=
  isOrdered (history.filterMap fun e => number (prop "tick" e)) &&
    history.all fun e =>
      isNumWith (fun t => if isInputEvent e then decide (t ≤ tick) else decide (t < tick))
        (prop "tick" e)

/-- `isSaveBody`. -/
def isSaveBody (v : Json) : Bool :=
  isObj v && isNumWith (fun x => decide (x = 2)) (prop "version" v) &&
    (prop "start" v).any isStart && (prop "stats" v).any isStats && isDate (prop "date" v) &&
    isNumWith (fun x => decide (0 ≤ x)) (prop "tick" v) &&
    (isNull (prop "divergedAt" v) || isNum (prop "divergedAt" v)) &&
    isArrayOf isEvent (prop "history" v) && isArrayOf isSegment (prop "segments" v) &&
    isPairs (prop "orbValues" v) &&
    isNumWith (fun tick => isOrderedHistory tick (items (prop "history" v))) (prop "tick" v)

/-! ## 3. Tapes -/

/-- `U32`. -/
def u32 : ℚ := 2 ^ 32

/-- `isU32`. -/
def isU32 (v : Json) : Bool :=
  isNumWith (fun x => decide (x.den = 1 ∧ 0 ≤ x ∧ x < u32)) (some v)

/-- `isTick`. -/
def isTick (v : Option Json) : Bool := isNumWith (fun x => decide (x.den = 1 ∧ 0 ≤ x)) v

/-- One entry of a tape's `inputs`. -/
def isTapeInput : Json → Bool
  | .arr [tick, command] => isTick (some tick) && isOneOf playerInputs (some command)
  | _ => false

/-- The tick of an entry. -/
def inputTick : Json → Option ℚ
  | .arr (tick :: _) => number (some tick)
  | _ => none

/-- One entry of a tape's `restarts`. -/
def isRestart (v : Json) : Bool :=
  isObj v && isTick (prop "liveTick" v) && isTick (prop "impureAt" v) &&
    isTick (prop "chaosAt" v) && (prop "save" v).any isSaveBody

/-- `isTape`. -/
def isTape (v : Json) : Bool :=
  isObj v && isNumWith (fun x => decide (x = 1)) (prop "v" v) && isDate (prop "date" v) &&
    isTick (prop "liveTick" v) && isArrayOf isU32 (prop "impure" v) &&
    isArrayOf isU32 (prop "chaos" v) && isArrayOf isTapeInput (prop "inputs" v) &&
    isOrdered ((items (prop "inputs" v)).filterMap inputTick) &&
    isArrayOf isRestart (prop "restarts" v)

/-- `isSave`. -/
def isSave (v : Json) : Bool := isSaveBody v && (prop "tape" v).any isTape

end DevDashboard.Web.Replay
