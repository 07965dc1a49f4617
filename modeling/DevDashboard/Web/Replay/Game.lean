/-
  File:      DevDashboard/Web/Replay/Game.lean
  Subject:   THE REPLAY GAME'S RUNTIME (runtime/game.ts).

  A `Game` is what the class keeps between two calls: the run (the open history segment with all
  that belongs to it), the phase, the tape with the source of outside values, and the store, which
  outlives the page. Its methods are programs that ask the outside world for random values
  (`Draw`): a recorder asks and writes the answers on the tape, a player reads them from the tape
  and asks nothing.

  The store does not fail: the branches of `persistence.ts` that catch what the browser's storage
  throws, and go on without it, are left out.

  What only the display reads (the notice, the version and its listeners, the state before the
  last tick, the flash and the trail of a montage) is left out. `today` is the date at the time of
  the call.
-/
import DevDashboard.Web.Replay.Runtime

namespace DevDashboard.Web.Replay

open Lib Asking

/-! ## 1. State -/

def crashFrames : ℕ := 90
def replayMinTicksPerFrame : ℕ := 8
def replayMaxFrames : ℚ := 120

/-- `PLAYBACK_SPEEDS`. -/
def playbackSpeeds : List ℕ := [1, 2, 5, 10]

inductive Phase where
  | title
  | resume (tick : ℕ)
  | tip (level : Level)
  | playing
  | paused
  | crashing (framesLeft : ℕ)
  | replaying
  | rewinding (frames : List (Option GameState)) (index : ℕ) (attempt : ℤ) (of : ℕ)
  | montage (events : ℕ)
  | lost
  | over_ (reason : Str)
  deriving DecidableEq

inductive Command where
  | input (kind : PlayerInput)
  | pause
  | confirm
  | cancel
  deriving DecidableEq

/-- The run: the open segment and what belongs to it. -/
structure Run where
  runDate : Str
  start : StartInput
  history : List HistoryEvent
  state : GameState
  stats : RunStats
  divergedAt : Option ℕ
  /-- Input events already in the history at the current tick; the next tick applies them. -/
  queued : List InputEvent
  /-- Closed segments of the current level. -/
  segments : List MontageSegment
  /-- Live impure values of this segment's orbs, by id. -/
  orbValues : List (ℕ × ℚ)
  rewind : RewindBuffer
  /-- When the process dies. -/
  dueAt : Option ℚ
  crashTick : ℕ
  replayer : Option Replayer
  replayTicksPerFrame : ℕ
  montage : Option Montage
  lived : Lived

/-- Where outside values come from: recorded live, or played from the tape, with the next positions
    and whether a value was missing. -/
inductive Source where
  | recorder
  | player (impureAt chaosAt : ℕ) (exhausted : Bool)
  deriving DecidableEq

/-- The store. What statements are about, it has besides: all saves it was handed and all segments
    live play closed, oldest first. -/
structure Store where
  save : Option Save
  handed : List Save
  closed : List MontageSegment
  best : ℕ
  daily : Option (Str × ℕ)

structure Game where
  run : Run
  phase : Phase
  dailyBest : ℕ
  best : ℕ
  tape : Tape
  playback : Bool
  speed : ℕ
  source : Source
  liveTick : ℕ
  inputCursor : ℕ
  restartCursor : ℕ
  pending : List PlayerInput
  slideHeld : Bool
  savedRun : Option Save
  store : Store

def levelZero : Level := ⟨0, by decide⟩
def levelOne : Level := ⟨1, by decide⟩

/-- `nextLevel`. -/
def nextLevel (l : Level) : Level := ⟨min 5 (l.val + 1), by omega⟩

/-- `livePlayer`: the hat the player steers. -/
def livePlayer (s : GameState) : Player :=
  match s.fan with
  | none => s.player
  | some fan => (fan.lanes.head?.map Lane.player).getD s.player

/-! ## 2. The store and the source -/

def Store.put (s : Store) (save : Save) : Store :=
  { s with save := some save, handed := s.handed ++ [save] }

def Store.close (s : Store) (seg : MontageSegment) : Store := { s with closed := s.closed ++ [seg] }

def Store.clear (s : Store) : Store := { s with save := none }

def Store.loadDailyBest (s : Store) (date : Str) : ℕ :=
  match s.daily with
  | none => 0
  | some d => if d.1 = date then d.2 else 0

namespace Game

/-- One value from the source. -/
def draw (g : Game) : Draw → Asking Draw ℚ (ℚ × Game)
  | .impure =>
      match g.source with
      | .recorder =>
          .ask .impure fun v =>
            .done (toUnit (quantise v),
              { g with tape := { g.tape with impure := g.tape.impure ++ [quantise v] } })
      | .player i c exhausted =>
          match g.tape.impure[i]? with
          | some u => .done (toUnit u, { g with source := .player (i + 1) c exhausted })
          | none => .done (0, { g with source := .player i c true })
  | .chaos =>
      match g.source with
      | .recorder =>
          .ask .chaos fun v =>
            .done (toUnit (quantise v),
              { g with tape := { g.tape with chaos := g.tape.chaos ++ [quantise v] } })
      | .player i c exhausted =>
          match g.tape.chaos[c]? with
          | some u => .done (toUnit u, { g with source := .player i (c + 1) exhausted })
          | none => .done (0, { g with source := .player i c true })

/-- A program whose questions go to the source. -/
def drawing {α : Type} : Asking Draw ℚ α → Game → Asking Draw ℚ (α × Game)
  | .done a, g => .done (a, g)
  | .ask q next, g => g.draw q >>= fun x => drawing (next x.1) x.2

/-- `TapePlayer.exhausted`. -/
def exhausted (g : Game) : Bool :=
  match g.source with
  | .recorder => false
  | .player _ _ e => e

/-! ## 3. Phases and saves -/

/-- `syncSlide`. -/
def syncSlide (g : Game) : Game :=
  let pending := g.pending.filter fun k => decide (k = .jump)
  let sliding := (livePlayer g.run.state).sliding
  { g with
    pending :=
      if sliding && !g.slideHeld then pending ++ [.slideEnd]
      else if !sliding && g.slideHeld then pending ++ [.slideStart]
      else pending }

/-- `setPhase`. -/
def setPhase (g : Game) (phase : Phase) : Game :=
  let g := { g with phase }
  match phase with
  | .playing => g.syncSlide
  | _ => g

/-- The save of a run at a tick. -/
def bodyAt (run : Run) (tick : ℕ) : SaveBody where
  date := run.runDate
  start := run.start
  history := run.history
  tick := tick
  stats := run.stats
  divergedAt := run.divergedAt
  segments := run.segments
  orbValues := run.orbValues
  lived := run.lived

/-- The tick a save replays to: none in the phases in which nothing is saved. -/
def saveTick (g : Game) : Option ℕ :=
  match g.phase with
  | .title | .resume _ | .over_ _ | .lost => none
  | .crashing _ | .replaying => some g.run.crashTick
  | _ => some g.run.state.tick

/-- `save`. -/
def save (levels : LevelTable) (g : Game) : Game :=
  if g.playback then g
  else
    match g.saveTick with
    | none => g
    | some tick =>
        -- A non-durable level keeps nothing.
        if (levels g.run.start.level).durable then
          { g with store := g.store.put ⟨bodyAt g.run tick, g.tape⟩ }
        else g

/-- `suspend`. -/
def suspend (levels : LevelTable) (g : Game) : Game :=
  match g.phase with
  | .playing => (g.setPhase .paused).save levels
  | _ => g.save levels

end Game

/-! ## 4. Segments -/

namespace Run

/-- `recordInput`. -/
def recordInput (run : Run) (e : InputEvent) : Run :=
  { run with history := run.history ++ [.input e], queued := run.queued ++ [e] }

/-- The open segment, as a closed one. -/
def closing (run : Run) (endTick : ℕ) : MontageSegment :=
  ⟨run.start, run.history, endTick, run.orbValues, run.lived⟩

/-- `closeSegment`: only durable, finite levels end in a montage. -/
def closeSegment (levels : LevelTable) (run : Run) (endTick : ℕ) : Run :=
  let cfg := levels run.start.level
  if cfg.durable ∧ cfg.length.isSome then
    { run with segments := run.segments ++ [run.closing endTick] }
  else run

/-- `beginSegment`, of the run. -/
def begin_ (A : Arith) (levels : LevelTable) (run : Run) (start : StartInput)
    (dueAt : Option ℚ) : Run :=
  let state := initialState A levels start
  { run with
    start, state, dueAt
    history := []
    orbValues := []
    rewind := .reset state
    queued := []
    lived := ⟨state, 0⟩ }

/-- `emptyRun`: the run of a game that has not begun. -/
def empty (A : Arith) (levels : LevelTable) (date : Str) : Run :=
  let start : StartInput := ⟨levelZero, 1, 0, 0, 0, false, 0, 0⟩
  { runDate := date, start, history := [], state := initialState A levels start
    stats := emptyStats, divergedAt := none, queued := [], segments := [], orbValues := []
    rewind := ⟨none, [], false⟩, dueAt := none, crashTick := 0, replayer := none
    replayTicksPerFrame := replayMinTicksPerFrame, montage := none
    lived := ⟨initialState A levels start, 0⟩ }

end Run

namespace Game

variable (A : Arith) (levels : LevelTable)

/-- `beginSegment`. -/
def beginSegment (start : StartInput) (showTip : Bool) (g : Game) : Asking Draw ℚ Game :=
  drawing (chaosStart A levels start.level showTip start.elapsed) g >>= fun x =>
    let g := { x.2 with run := x.2.run.begin_ A levels start x.1, pending := [] }
    .done ((g.setPhase (if showTip then .tip start.level else .playing)).save levels)

/-- `crash`. -/
def crash (g : Game) : Game :=
  let g := { g with run := { g.run with crashTick := g.run.state.tick } }
  (g.setPhase (.crashing crashFrames)).save levels

/-- The ticks of a frame of a replay. -/
def replaySpeed (crashTick : ℕ) : ℕ :=
  max replayMinTicksPerFrame ⌈A.div crashTick replayMaxFrames⌉.toNat

/-- `startReplay`. -/
def startReplay (g : Game) : Game :=
  if (levels g.run.start.level).durable then
    let r := createReplayer A levels g.run.start g.run.history g.run.crashTick
    let run := { g.run with
      stats := { g.run.stats with replays := g.run.stats.replays + 1 }
      replayer := some r
      rewind := .reset r.state
      replayTicksPerFrame := replaySpeed A g.run.crashTick
      state := r.state }
    { g with run }.setPhase .replaying
  else
    let g := if g.playback then g else { g with store := g.store.clear }
    g.setPhase .lost

/-- `closeSegment`. -/
def closeSegment (endTick : ℕ) (g : Game) : Game :=
  { g with
    run := g.run.closeSegment levels endTick
    store := if g.playback then g.store else g.store.close (g.run.closing endTick) }

/-- `hotfix`. -/
def hotfix (g : Game) : Asking Draw ℚ Game :=
  let g := { g with run := { g.run with divergedAt := none } }
  beginSegment A levels (continueAsNew A g.run.state) false (g.closeSegment levels g.run.state.tick)

/-- The loop of `advanceReplay`: ticks of the replayer, whose running states the rewind buffer
    takes. -/
def replayTicks : ℕ → Replayer → RewindBuffer → Asking Draw ℚ (Replayer × RewindBuffer)
  | 0, r, rewind => .done (r, rewind)
  | n + 1, r, rewind =>
      if r.done then .done (r, rewind)
      else
        r.advance A levels 1 >>= fun r' =>
          replayTicks n r' (if r'.state.status = .running then rewind.push r'.state else rewind)

/-- The activities among the events. -/
def activities (events : List HistoryEvent) : ℕ :=
  (outcomesOf events).countP fun e =>
    match e.what with
    | .activityCoinCollected _ => true
    | .activityCrateCollected _ _ => true
    | _ => false

/-- `advanceReplay`, when the replay has been accepted. -/
def replayed (state : GameState) (g : Game) : Asking Draw ℚ Game :=
  let run := { g.run with
    stats := { g.run.stats with
      fromHistory := g.run.stats.fromHistory + activities g.run.history }
    state
    lived := { g.run.lived with state } }
  drawing (scheduleNext A levels state.level state.tick state.elapsed) { g with run } >>= fun x =>
    let run := { x.2.run with
      dueAt := x.1
      -- Runtime inputs at the resume tick were not applied by the replay: it stops before it.
      queued := (inputsOf x.2.run.history).filter fun e => decide (e.tick = state.tick) }
    .done ({ x.2 with run := run.recordInput ⟨state.tick, .orchestratorStarted⟩ }.setPhase .playing)

/-- `advanceReplay`, when the replay has diverged at the event `i`. -/
def incident (i : ℕ) (state : GameState) (g : Game) : Asking Draw ℚ Game :=
  let run := { g.run with
    stats := { g.run.stats with
      fromHistory := g.run.stats.fromHistory + activities (g.run.history.take i)
      incidents := g.run.stats.incidents + 1 }
    divergedAt := some i }
  beginSegment A levels { continueAsNew A state with boss := true } false
      ({ g with run }.closeSegment levels run.crashTick) >>= fun g =>
    .done { g with run := g.run.recordInput ⟨0, .orchestratorStarted⟩ }

/-- `advanceReplay`. -/
def advanceReplay (g : Game) : Asking Draw ℚ Game :=
  match g.run.replayer with
  | none => .done g
  | some r =>
      drawing (replayTicks A levels g.run.replayTicksPerFrame r g.run.rewind) g >>= fun x =>
        let r := x.1.1
        let g := x.2
        let run := { g.run with state := r.state, rewind := x.1.2 }
        if r.done = false then .done { g with run := { run with replayer := some r } }
        else
          let g := { g with run := { run with replayer := none } }
          match r.result with
          | .ok state => replayed A levels state g
          | .diverged i state => incident A levels i state g

/-- `restartFromHistory`. -/
def restartFromHistory (tick : ℕ) (g : Game) : Asking Draw ℚ Game :=
  let run := { g.run with montage := none, crashTick := tick, queued := [] }
  drawing (chaosStart A levels run.start.level false run.start.elapsed)
      { g with run, pending := [] } >>= fun x =>
    .done (startReplay A levels { x.2 with run := { x.2.run with dueAt := x.1 } })

/-- `restoreSave`. -/
def restoreSave (b : SaveBody) (g : Game) : Asking Draw ℚ Game :=
  let run := { g.run with
    start := b.start, history := b.history, stats := b.stats, divergedAt := b.divergedAt
    segments := b.segments, orbValues := JsMap.ofPairs b.orbValues, runDate := b.date, lived := b.lived }
  let dailyBest := if g.playback then g.dailyBest else g.store.loadDailyBest b.date
  restartFromHistory A levels b.tick { g with run, dailyBest }

/-- `resumeSaved`. -/
def resumeSaved (s : Save) (g : Game) : Asking Draw ℚ Game :=
  let restart : Restart := ⟨s.tape.liveTick, s.tape.impure.length, s.tape.chaos.length, s.body⟩
  restoreSave A levels s.body
    { g with
      savedRun := none
      tape := { s.tape with restarts := s.tape.restarts ++ [restart] }
      liveTick := s.tape.liveTick
      source := .recorder }

/-! ## 5. Ticks -/

/-- `gameOver`. -/
def gameOver (today : Str) (reason : Str) (g : Game) : Game :=
  let g :=
    if g.playback then g
    else
      let score := g.run.state.score
      let g := { g with store := g.store.clear }
      let g :=
        if g.best < score then { g with best := score, store := { g.store with best := score } }
        else g
      -- A resumed run from an earlier day must not touch today's slot.
      if g.run.runDate = today ∧ g.dailyBest < score then
        { g with dailyBest := score, store := { g.store with daily := some (g.run.runDate, score) } }
      else g
  g.setPhase (.over_ reason)

/-- The ports of live play: a crate's activity is executed. -/
def livePorts : Port → Asking Draw ℚ ℚ := fun _ => query .impure

/-- The rewind target of `retry`. -/
def retryTarget (run : Run) (hit : GameState) : Option GameState :=
  let speed := speedAt A (levels hit.level) hit.elapsed
  let attempts := (inputsOf run.history).filter fun e => decide (inputOf e = .retry)
  run.rewind.pick A hit.failedAt
    (if speed = 0 then none else some ⌈A.div rewindPx speed⌉)
    (attempts.getLast?.elim 0 fun e => e.tick + 1)

/-- `retry`, to its target. -/
def rewindTo (hit target : GameState) (g : Game) : Asking Draw ℚ Game :=
  let cfg := levels hit.level
  let frames := sample A (g.run.rewind.between target.tick hit.failedAt).reverse rewindFrames
  let attempt : ℤ := cfg.retries - target.retries + 1
  let run := { g.run with
    history := g.run.history.filter fun e => decide (e.tick < target.tick)
    rewind := g.run.rewind.dropAfter target.tick
    state := target
    queued := []
    stats := { g.run.stats with retriesUsed := g.run.stats.retriesUsed + 1 }
    lived := ⟨target, g.run.lived.rewinds + 1⟩ }
  let run := run.recordInput ⟨target.tick, .retryAttempt attempt hit.failedAt⟩
  let schedule :=
    match run.dueAt with
    | some due => Asking.done (some due)
    | none => scheduleNext A levels target.level target.tick target.elapsed
  drawing schedule { g with run, pending := [] } >>= fun x =>
    let g := { x.2 with run := { x.2.run with dueAt := x.1 } }
    .done ((g.setPhase (.rewinding frames 0 attempt cfg.retries)).save levels)

/-- `retry`; an empty buffer throws. -/
def retry (hit : GameState) (g : Game) : Asking Draw ℚ Game :=
  match retryTarget A levels g.run hit with
  | none => .done g
  | some target => rewindTo A levels hit target g

/-- The player's inputs of a live tick: what is pending, or what the tape has. -/
def takeInputs (g : Game) : List PlayerInput × Game :=
  let L := g.liveTick
  if g.playback then
    let inputs := (g.tape.inputs.drop g.inputCursor).takeWhile fun i => decide (i.1 = L)
    (inputs.map Prod.snd,
      { g with liveTick := L + 1, inputCursor := g.inputCursor + inputs.length, pending := [] })
  else
    (g.pending,
      { g with
        liveTick := L + 1
        tape := { g.tape with
          inputs := g.tape.inputs ++ g.pending.map fun k => (L, k)
          liveTick := L + 1 }
        pending := [] })

/-- The orb values of a tick: each orb and each crate calls `impure` once, in event order. -/
def noteOrbs : List OutcomeEvent → List ℚ → List (ℕ × ℚ) → List (ℕ × ℚ)
  | [], _, m => m
  | e :: es, calls, m =>
      match e.what with
      | .orbTaken id => noteOrbs es calls.tail (JsMap.set id (calls.headD 0) m)
      | .activityCrateCollected _ _ => noteOrbs es calls.tail m
      | _ => noteOrbs es calls m

/-- What one event of a tick does to the run but for the chaos it causes. -/
def noteEvent (run : Run) (e : OutcomeEvent) : Run :=
  let run := { run with history := run.history ++ [.outcome e] }
  match e.what with
  | .activityCoinCollected _ | .activityCrateCollected _ _ =>
      { run with stats := { run.stats with executed := run.stats.executed + 1 } }
  | .circuitBreakerTripped _ =>
      { run with stats := { run.stats with circuitTrips := run.stats.circuitTrips + 1 } }
  | .boostLost _ => { run with stats := { run.stats with boostsLost := run.stats.boostsLost + 1 } }
  | _ => run

/-- What a pick-up is to the chaos scheduler. -/
def chaosKind : Outcome → Option EntityKind
  | .orbTaken _ => some .orb
  | .activityCrateCollected _ _ => some .crate
  | _ => none

/-- The loop over the events of a tick that led to `state`. -/
def noteEvents (state : GameState) : List OutcomeEvent → Run → Asking Draw ℚ Run
  | [], run => .done run
  | e :: es, run =>
      let run := noteEvent run e
      match chaosKind e.what with
      | none => noteEvents state es run
      | some kind =>
          onPickup A levels state.level kind state.tick run.dueAt >>= fun dueAt =>
            noteEvents state es { run with dueAt }

/-- `tick`, when the level is done. -/
def levelDone (state : GameState) (g : Game) : Asking Draw ℚ Game :=
  let g := { g with run := { g.run with divergedAt := none } }.closeSegment levels state.tick
  let segments := if (levels state.level).durable then g.run.segments else []
  let next := nextLevel state.level
  -- The next level starts first, so a tab closed during the montage resumes there.
  beginSegment A levels
      { continueAsNew A state with
        level := next, elapsed := 0, distance := 0, retries := (levels next).retries } true
      { g with run := { g.run with segments := [] } } >>= fun g =>
    match segments with
    | [] => .done g
    | seg :: segs =>
        .done ({ g with run := { g.run with montage := some (.create A levels seg segs) } }.setPhase
          (.montage ((seg :: segs).map fun s : MontageSegment => s.history.length).sum))

/-- Why a run failed. -/
def failReason (run : Run) (state : GameState) : Str :=
  match run.divergedAt with
  | some i =>
      if 0 < state.bossUntil then
        "non-determinism detected at event #".toList ++ Json.printNat (i + 1)
      else "hit an obstacle".toList
  | none => "hit an obstacle".toList

/-- `tick`, once a step that needs no retry has been noted. -/
def goOn (today : Str) (r : StepResult) (g : Game) : Asking Draw ℚ Game :=
  if r.state.status = .failed then
    .done (g.gameOver today (failReason g.run r.state))
  else if r.state.status = .levelDone then levelDone A levels r.state g
  else
    let g := { g with run := { g.run with rewind := g.run.rewind.push r.state } }
    if 0 < r.state.bossUntil then
      if r.state.bossUntil ≤ r.state.tick then hotfix A levels g else .done g
    else if isDue g.run.dueAt r.state.tick then .done (g.crash levels)
    else if r.events = [] then .done g
    else .done (g.save levels)

/-- `tick`, after its step; `calls` is what `impure` was called for. -/
def afterStep (today : Str) (r : StepResult) (calls : List ℚ) (g : Game) : Asking Draw ℚ Game :=
  if r.state.status = .retry then retry A levels r.state g
  else
    let run := { g.run with
      state := r.state
      orbValues := noteOrbs r.events calls g.run.orbValues
      lived := { g.run.lived with state := r.state } }
    drawing (noteEvents A levels r.state r.events run) g >>= fun x =>
      goOn A levels today r { x.2 with run := x.1 }

/-- `tick`. -/
def tick (today : Str) (g : Game) : Asking Draw ℚ Game :=
  let t := g.run.state.tick
  let inputs := g.takeInputs
  let kinds := g.run.queued.map inputOf ++ inputs.1.map .player
  let run := { g.run with
    queued := []
    history := g.run.history ++ inputs.1.map fun k => .input ⟨t, .input k⟩ }
  drawing (((step A levels run.state kinds).via livePorts).logged) { inputs.2 with run } >>= fun x =>
    afterStep A levels today x.1.1 x.1.2 x.2

/-! ## 6. Frames -/

/-- `confirm`: dismisses a tip or "Progress lost" card. -/
def confirm (g : Game) : Asking Draw ℚ Game :=
  match g.phase with
  | .tip _ => .done (g.setPhase .playing)
  | .lost =>
      beginSegment A levels
        ⟨levelOne, seedFrom (seedForDate g.run.runDate), 0, 0, 0, false, (levels levelOne).retries, 0⟩ true
        { g with run := { g.run with stats := emptyStats } }
  | _ => .done g

/-- `restartDue`: the recorded resume that has to be applied before any more ticks. -/
def restartDue (g : Game) : Option Restart :=
  if g.playback then (g.tape.restarts[g.restartCursor]?).filter fun r => r.liveTick = g.liveTick
  else none

/-- `autoplay`: playback confirms cards and repeats the recorded resumes. -/
def autoplay (g : Game) : Asking Draw ℚ Game :=
  confirm A levels g >>= fun g' =>
    -- The phase is the one before the card was confirmed.
    match g.phase, g'.restartDue, g'.source with
    | .over_ _, _, _ | .title, _, _ | _, none, _ | _, _, .recorder => .done g'
    | _, some r, .player _ _ exhausted =>
        restoreSave A levels r.save
          { g' with
            restartCursor := g'.restartCursor + 1
            source := .player r.impureAt r.chaosAt exhausted }

/-- The ticks of a frame. -/
def ticks (today : Str) : ℕ → Game → Asking Draw ℚ Game
  | 0, g => .done g
  | n + 1, g =>
      match g.phase, g.restartDue with
      | .playing, none => tick A levels today g >>= ticks today n
      | _, _ => .done g

/-- `frameStep`, between the cards and the end. -/
def frameBody (today : Str) (liveTicks : ℕ) (g : Game) : Asking Draw ℚ Game :=
  match g.phase with
  | .playing => ticks A levels today liveTicks g
  | .crashing framesLeft =>
      if 1 < framesLeft then .done { g with phase := .crashing (framesLeft - 1) }
      else .done (startReplay A levels g)
  | .replaying => advanceReplay A levels g
  | .rewinding frames index attempt of =>
      if index + 1 < frames.length then
        .done { g with phase := .rewinding frames (index + 1) attempt of }
      else .done (g.setPhase .playing)
  | .montage _ =>
      let montage := g.run.montage.map (Montage.advance A levels)
      if montage.all Montage.isDone then
        -- `endMontage`.
        .done ({ g with run := { g.run with montage := none } }.setPhase (.tip g.run.start.level))
      else .done { g with run := { g.run with montage } }
  | _ => .done g

/-- A playback that ran past the end of its tape is over. -/
def endFrame (today : Str) (g : Game) : Game :=
  match g.phase with
  | .over_ _ => g
  | _ => if g.playback && g.exhausted then g.gameOver today "Run code ended early".toList else g

/-- `frameStep`. -/
def frameStep (today : Str) (liveTicks : ℕ) (g : Game) : Asking Draw ℚ Game :=
  (if g.playback then autoplay A levels g else .done g) >>= fun g =>
    frameBody A levels today liveTicks g >>= fun g => .done (g.endFrame today)

/-- `n` frame steps. -/
def frameSteps (today : Str) (liveTicks : ℕ) : ℕ → Game → Asking Draw ℚ Game
  | 0, g => .done g
  | n + 1, g => frameStep A levels today liveTicks g >>= frameSteps today liveTicks n

/-- `frame`. -/
def frame (today : Str) (liveTicks : ℕ) (g : Game) : Asking Draw ℚ Game :=
  frameSteps A levels today liveTicks (if g.playback then g.speed else 1) g

/-- `setPlaybackSpeed`. -/
def setPlaybackSpeed (speed : ℕ) (g : Game) : Game :=
  if g.playback ∧ speed ∈ playbackSpeeds then { g with speed } else g

/-! ## 7. Runs and commands -/

/-- `leavePlayback`. -/
def leavePlayback (today : Str) (g : Game) : Game :=
  { g with
    playback := false
    speed := 1
    run := { g.run with runDate := today }
    dailyBest := g.store.loadDailyBest today }

/-- `startRun`. -/
def startRun (g : Game) : Asking Draw ℚ Game :=
  let run := { g.run with stats := emptyStats, divergedAt := none, segments := [] }
  beginSegment A levels
    ⟨levelZero, seedForDate run.runDate, 0, 0, 0, false, (levels levelZero).retries, 0⟩ true
    { g with run, liveTick := 0, inputCursor := 0, restartCursor := 0 }

/-- `newRun`. -/
def newRun (today : Str) (g : Game) : Asking Draw ℚ Game :=
  let g := g.leavePlayback today
  startRun A levels
    { g with tape := emptyTape g.run.runDate, source := .recorder, store := g.store.clear }

/-- `watch`; a malformed tape changes nothing. -/
def watch (tape : Tape) (g : Game) : Asking Draw ℚ Game :=
  if isTape tape.toJson then
    startRun A levels
      { g with
        playback := true
        run := { g.run with runDate := tape.date }
        tape := tape
        source := .player 0 0 false }
  else .done g

/-- The commands of a phase. -/
def act (today : Str) (c : Command) (g : Game) : Asking Draw ℚ Game :=
  match g.phase, c with
  | .title, .confirm => newRun A levels today g
  | .over_ _, .confirm => newRun A levels today g
  | .resume _, .confirm =>
      match g.savedRun with
      | some s => resumeSaved A levels s g
      | none => .done g
  | .resume _, .cancel =>
      .done ({ g with savedRun := none, store := g.store.clear }.setPhase .title)
  | .tip _, .confirm => confirm A levels g
  | .lost, .confirm => confirm A levels g
  | .montage _, .confirm =>
      .done ({ g with run := { g.run with montage := none } }.setPhase (.tip g.run.start.level))
  | .playing, .cancel => .done ((g.setPhase .paused).save levels)
  | .playing, .pause => .done ((g.setPhase .paused).save levels)
  | .playing, .input kind => .done { g with pending := g.pending ++ [kind] }
  | .paused, .cancel => .done (g.setPhase .playing)
  | .paused, .pause => .done (g.setPhase .playing)
  | .paused, .confirm => .done (g.setPhase .playing)
  | _, _ => .done g

/-- What `command` notes of the slide key. -/
def holdSlide (c : Command) (g : Game) : Game :=
  match c with
  | .input .slideStart => { g with slideHeld := true }
  | .input .slideEnd => { g with slideHeld := false }
  | _ => g

/-- `command`. -/
def command (today : Str) (c : Command) (g : Game) : Asking Draw ℚ Game :=
  let g := g.holdSlide c
  if g.playback then
    match g.phase, c with
    | .over_ _, .confirm => newRun A levels today g
    | .paused, .cancel => act A levels today c g
    | _, .cancel => .done ((g.leavePlayback today).setPhase .title)
    | .paused, .confirm => act A levels today c g
    | _, .pause => act A levels today c g
    | _, _ => .done g
  else act A levels today c g

/-- The constructor, over what the store has. -/
def create (today : Str) (store : Store) : Game where
  run := .empty A levels today
  phase :=
    match store.save with
    | some s => .resume s.body.tick
    | none => .title
  dailyBest := store.loadDailyBest today
  best := store.best
  tape := emptyTape today
  playback := false
  speed := 1
  source := .recorder
  liveTick := 0
  inputCursor := 0
  restartCursor := 0
  pending := []
  slideHeld := false
  savedRun := store.save
  store := store

end Game

end DevDashboard.Web.Replay
