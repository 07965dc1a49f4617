/-
  File:      DevDashboard/Web/Replay/Runtime.lean
  Subject:   THE PARTS OF THE REPLAY GAME'S RUNTIME (runtime/rewind.ts, chaos.ts, montage.ts).

  The rewind buffer keeps the recent states of the open segment; the chaos scheduler decides when
  the process dies; a montage replays the closed segments of a level with the orb values of live
  play.
-/
import DevDashboard.Lib.JsMap
import DevDashboard.Web.Replay.Saves

namespace DevDashboard.Web.Replay

open Lib Asking

/-! ## 1. The rewind buffer -/

def rewindBufferTicks : ℕ := 180
def rewindPx : ℚ := 240
def rewindFrames : ℕ := 30
def safeBehind : ℚ := 10
def safeAhead : ℚ := 120

/-- `hatSafe`. -/
def hatSafe (A : Arith) (p : Player) (entities : List Entity) : Bool :=
  decide (p.y = groundY ∧ p.vy = 0) &&
    !entities.any fun e => decide (e.kind ∈ hazards) && !e.taken &&
      decide (e.x < playerX + playerW + safeAhead ∧ playerX - safeBehind < A.add e.x e.w)

/-- `isSafe`: every hat stands on solid ground with no hazard close by. -/
def isSafe (A : Arith) (s : GameState) : Bool :=
  match s.fan with
  | none => hatSafe A s.player s.entities
  | some fan => fan.lanes.all fun l => hatSafe A l.player l.entities

/-- `RewindBuffer`. -/
structure RewindBuffer where
  anchor : Option GameState
  ring : List GameState
  wrapped : Bool

namespace RewindBuffer

/-- `reset`. -/
def reset (anchor : GameState) : RewindBuffer := ⟨some anchor, [], false⟩

/-- `push`. -/
def push (b : RewindBuffer) (s : GameState) : RewindBuffer :=
  let ring := b.ring ++ [s]
  if rewindBufferTicks < ring.length then { b with ring := ring.tail, wrapped := true }
  else { b with ring }

/-- `all`. -/
def all (b : RewindBuffer) : List GameState :=
  if b.wrapped then b.ring else b.anchor.toList ++ b.ring

/-- The states a rewind may go back to. -/
def candidates (b : RewindBuffer) (floor : ℕ) : List GameState :=
  b.all.filter fun s => decide (floor ≤ s.tick)

/-- `pick`; `minBack` is `none` for `Infinity`, and the result where the buffer is empty. -/
def pick (A : Arith) (b : RewindBuffer) (failedAt : ℕ) (minBack : Option ℤ) (floor : ℕ) :
    Option GameState :=
  match (b.candidates floor).reverse.find? fun s =>
      (minBack.any fun m => decide ((s.tick : ℤ) ≤ failedAt - m)) && isSafe A s with
  | some s => some s
  | none => (b.candidates floor).head?.or b.all.getLast?

/-- `between`. -/
def between (b : RewindBuffer) (from_ to_ : ℕ) : List GameState :=
  b.all.filter fun s => decide (from_ ≤ s.tick ∧ s.tick ≤ to_)

/-- `dropAfter`. -/
def dropAfter (b : RewindBuffer) (tick : ℕ) : RewindBuffer :=
  { b with ring := b.ring.filter fun s => decide (s.tick ≤ tick) }

end RewindBuffer

/-- `sample`: up to `n` items spread evenly, `none` where the program reads past the end. -/
def sample {α : Type} (A : Arith) (items : List α) (n : ℕ) : List (Option α) :=
  if n = 0 then []
  else if n = 1 then items.head?.toList.map some
  else if items.length ≤ n then items.map some
  else (List.range n).map fun i =>
    items[(mathRound (A.div (A.mul i (items.length - 1)) (n - 1))).toNat]?

/-! ## 2. Chaos -/

/-- `ChaosScheduler.between`. -/
def chaosBetween (A : Arith) (range : ℚ × ℚ) : Asking Draw ℚ ℚ :=
  .ask .chaos fun rand =>
    .done (A.add range.1 (mathRound (A.mul rand (A.sub range.2 range.1)) : ℤ))

/-- `ChaosScheduler.scheduleNext`. -/
def scheduleNext (A : Arith) (levels : LevelTable) (level : Level) (tick elapsed : ℕ) :
    Asking Draw ℚ (Option ℚ) :=
  match chaosMeanTicks A (levels level) elapsed with
  | none => .done none
  | some mean =>
      .ask .chaos fun rand =>
        .done (some (A.add tick (mathRound (A.mul mean (A.add (1 / 2) rand)) : ℤ)))

/-- `ChaosScheduler.start`. -/
def chaosStart (A : Arith) (levels : LevelTable) (level : Level) (firstOfLevel : Bool)
    (elapsed : ℕ) : Asking Draw ℚ (Option ℚ) :=
  match (levels level).scriptedCrashAt, firstOfLevel, (levels level).firstCrashTicks with
  | some at_, _, _ => .done (some at_)
  | none, true, some range => chaosBetween A range >>= fun at_ => .done (some at_)
  | none, _, _ => scheduleNext A levels level 0 elapsed

/-- `ChaosScheduler.onPickup`, of the crash that is due. -/
def onPickup (A : Arith) (levels : LevelTable) (level : Level) (kind : EntityKind) (tick : ℕ)
    (due : Option ℚ) : Asking Draw ℚ (Option ℚ) :=
  if kind ∈ (levels level).crashAfterPickup then
    chaosBetween A crashAfterPickupTicks >>= fun after =>
      let at_ := A.add tick after
      .done (if due.all fun d => decide (at_ < d) then some at_ else due)
  else .done due

/-- `ChaosScheduler.isDue`. -/
def isDue (due : Option ℚ) (tick : ℕ) : Bool := due.any fun d => decide (d ≤ (tick : ℚ))

/-! ## 3. Orb values and montages -/

/-- The ids of the orbs taken, in order. -/
def orbsOf (outs : List OutcomeEvent) : List ℕ :=
  outs.filterMap fun e =>
    match e.what with
    | .orbTaken id => some id
    | _ => none

/-- The orbs of a history. -/
def orbIds (history : List HistoryEvent) : List ℕ := orbsOf (outcomesOf history)

/-- The queue of `Montage.open`. -/
def orbQueue (history : List HistoryEvent) (orbValues : List (ℕ × ℚ)) : List ℚ :=
  (orbIds history).map fun id => (orbValues.lookup id).getD 0

/-- `queue.shift() ?? 0`. -/
def shift (queue : List ℚ) (_ : Draw) : ℚ × List ℚ := (queue.headD 0, queue.tail)

def montageFrames : ℚ := 240
def montageMinTicksPerFrame : ℕ := 8

/-- `Montage`, with the queue of its open replayer. -/
structure Montage where
  segments : List MontageSegment
  ticksPerFrame : ℕ
  index : ℕ
  replayer : Replayer
  queue : List ℚ

namespace Montage

/-- `open`. -/
def openSegment (A : Arith) (levels : LevelTable) (seg : MontageSegment) : Replayer × List ℚ :=
  (createReplayer A levels seg.start seg.history seg.endTick,
    orbQueue seg.history (JsMap.ofPairs seg.orbValues))

/-- `new Montage`, of at least one segment. -/
def create (A : Arith) (levels : LevelTable) (seg : MontageSegment) (segs : List MontageSegment) :
    Montage where
  segments := seg :: segs
  ticksPerFrame := max montageMinTicksPerFrame
    ⌈A.div ((((seg :: segs).map MontageSegment.endTick).sum : ℕ) : ℚ) montageFrames⌉.toNat
  index := 0
  replayer := (openSegment A levels seg).1
  queue := (openSegment A levels seg).2

/-- `done`. -/
def isDone (m : Montage) : Bool := decide (m.segments.length ≤ m.index)

/-- `advance`: one frame of fast-forward. -/
def advance (A : Arith) (levels : LevelTable) (m : Montage) : Montage :=
  if m.isDone then m
  else
    let r := (m.replayer.advance A levels m.ticksPerFrame).answer shift m.queue
    let m := { m with replayer := r.1, queue := r.2 }
    if r.1.done = false then m
    else
      match m.segments[m.index + 1]? with
      | none => { m with index := m.index + 1 }
      | some seg =>
          { m with
            index := m.index + 1
            replayer := (openSegment A levels seg).1
            queue := (openSegment A levels seg).2 }

end Montage

end DevDashboard.Web.Replay
