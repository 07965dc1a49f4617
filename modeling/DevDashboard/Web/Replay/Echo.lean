/-
  File:      DevDashboard/Web/Replay/Echo.lean
  Subject:   A PLAYBACK REPEATS LIVE PLAY, METHOD BY METHOD (runtime/game.ts, tape.ts).

  Live play writes its tape as it goes; what it may have become later is a longer tape
  (`Tape.Before`). A playback of such a tape that stands where live play stood (`Bound`) reads from
  it what live play was told, so each method does to it what it did to live play (`Echoes`).

  The run is the same but for four fields that some phases alone read, and that are written when
  such a phase is entered (`Run.like`, `Shared`).
-/
import DevDashboard.Web.Replay.Invariant

namespace DevDashboard.Web.Replay

open Lib Asking

variable {A : Arith} {levels : LevelTable} {T : Tape} {g p : Game}

/-! ## 1. Tapes that are written on -/

/-- A tape that was `t` may have become `T`. -/
structure Tape.Before (t T : Tape) : Prop where
  date : T.date = t.date
  impure : t.impure <+: T.impure
  chaos : t.chaos <+: T.chaos
  inputs : ∃ rest, T.inputs = t.inputs ++ rest ∧ ∀ i ∈ rest, t.liveTick ≤ i.1
  restarts : ∃ rest, T.restarts = t.restarts ++ rest ∧ ∀ r ∈ rest, t.liveTick ≤ r.liveTick
  liveTick : t.liveTick ≤ T.liveTick

theorem Tape.Before.refl (t : Tape) : t.Before t :=
  ⟨rfl, List.prefix_rfl, List.prefix_rfl, ⟨[], (List.append_nil _).symm, by simp⟩,
    ⟨[], (List.append_nil _).symm, by simp⟩, le_rfl⟩

theorem Tape.Before.trans {t u T : Tape} (h : t.Before u) (h' : u.Before T) : t.Before T := by
  obtain ⟨is, his, htick⟩ := h.inputs
  obtain ⟨is', his', htick'⟩ := h'.inputs
  obtain ⟨rs, hrs, hlive⟩ := h.restarts
  obtain ⟨rs', hrs', hlive'⟩ := h'.restarts
  refine ⟨h'.date.trans h.date, h.impure.trans h'.impure, h.chaos.trans h'.chaos, ?_, ?_,
    h.liveTick.trans h'.liveTick⟩
  · refine ⟨is ++ is', by rw [his', his, List.append_assoc], fun i hi => ?_⟩
    rcases List.mem_append.mp hi with hi | hi
    · exact htick i hi
    · exact h.liveTick.trans (htick' i hi)
  · refine ⟨rs ++ rs', by rw [hrs', hrs, List.append_assoc], fun r hr => ?_⟩
    rcases List.mem_append.mp hr with hr | hr
    · exact hlive r hr
    · exact h.liveTick.trans (hlive' r hr)

/-- The recorder is on, and notes its inputs at the tick that comes next. -/
structure Live (g : Game) : Prop where
  playback : g.playback = false
  source : g.source = .recorder
  liveTick : g.liveTick = g.tape.liveTick

/-- What a method without inputs does to the tape: it may note values. -/
structure Still (g g' : Game) : Prop where
  playback : g'.playback = g.playback
  source : g.source = .recorder → g'.source = .recorder
  liveTick : g'.liveTick = g.liveTick
  inputs : g'.inputCursor = g.inputCursor
  restarts : g'.restartCursor = g.restartCursor
  tape : ∃ impure chaos, g'.tape = { g.tape with
    impure := g.tape.impure ++ impure, chaos := g.tape.chaos ++ chaos }

/-- What does not even note values. -/
theorem Still.change (g : Game) (run : Run) (phase : Phase) (pending : List PlayerInput)
    (best dailyBest : ℕ) (slideHeld : Bool) (store : Store) :
    Still g { g with run, phase, pending, best, dailyBest, slideHeld, store } :=
  ⟨rfl, id, rfl, rfl, rfl, [], [], by simp only [List.append_nil]⟩

theorem steady_still : Steady Still where
  refl := fun g => .change g _ _ _ _ _ _ _
  trans := by
    intro g g' g'' h h'
    obtain ⟨impure, chaos, ht⟩ := h.tape
    obtain ⟨impure', chaos', ht'⟩ := h'.tape
    refine ⟨h'.playback.trans h.playback, h'.source ∘ h.source, h'.liveTick.trans h.liveTick,
      h'.inputs.trans h.inputs, h'.restarts.trans h.restarts, impure ++ impure', chaos ++ chaos', ?_⟩
    rw [ht', ht]
    simp only [List.append_assoc]
  draw := by
    intro q g
    unfold Game.draw
    cases q with
    | impure =>
        cases hs : g.source with
        | recorder =>
            refine always_ask.mpr fun v => always_done.mpr ⟨rfl, fun _ => rfl, rfl, rfl, rfl,
              [quantise v], [], ?_⟩
            simp only [List.append_nil]
        | player i c e =>
            have hplay : g.source ≠ .recorder := by rw [hs]; nofun
            simp only
            split <;> exact always_done.mpr
              ⟨rfl, fun h => absurd h hplay, rfl, rfl, rfl, [], [], by simp only [List.append_nil]⟩
    | chaos =>
        cases hs : g.source with
        | recorder =>
            refine always_ask.mpr fun v => always_done.mpr ⟨rfl, fun _ => rfl, rfl, rfl, rfl,
              [], [quantise v], ?_⟩
            simp only [List.append_nil]
        | player i c e =>
            have hplay : g.source ≠ .recorder := by rw [hs]; nofun
            simp only
            split <;> exact always_done.mpr
              ⟨rfl, fun h => absurd h hplay, rfl, rfl, rfl, [], [], by simp only [List.append_nil]⟩
  change := fun g run phase pending dailyBest _ => .change g run phase pending _ dailyBest _ _
  file := fun g best dailyBest store _ => .change g _ _ _ best dailyBest _ store

theorem still_setPhase (g : Game) (phase : Phase) : Still g (g.setPhase phase) := by
  obtain ⟨pending, hg⟩ := setPhase_spec g phase
  rw [hg]
  exact .change g _ _ _ _ _ _ _

theorem Still.before {g g' : Game} (h : Still g g') : g.tape.Before g'.tape := by
  obtain ⟨impure, chaos, ht⟩ := h.tape
  rw [ht]
  exact ⟨rfl, List.prefix_append _ _, List.prefix_append _ _,
    ⟨[], (List.append_nil _).symm, by simp⟩, ⟨[], (List.append_nil _).symm, by simp⟩, le_rfl⟩

theorem Still.live {g g' : Game} (h : Still g g') (hl : Live g) : Live g' := by
  obtain ⟨impure, chaos, ht⟩ := h.tape
  refine ⟨h.playback.trans hl.playback, h.source hl.source, ?_⟩
  rw [h.liveTick, ht]
  exact hl.liveTick

/-! ## 2. A playback that stands where live play stood -/

/-- A playback of `T` stands where live play stood in `g`, with the values that came next. -/
structure Bound (T : Tape) (g p : Game) : Prop where
  playback : p.playback = true
  tape : p.tape = T
  source : p.source = .player g.tape.impure.length g.tape.chaos.length false
  inputs : p.inputCursor = g.tape.inputs.length
  restarts : p.restartCursor = g.tape.restarts.length
  liveTick : p.liveTick = g.liveTick

/-- The next values are the ones behind those of `t`. -/
def Game.seek (t : Tape) (p : Game) : Game :=
  { p with source := .player t.impure.length t.chaos.length false }

/-- The value that was noted last is the next one to read. -/
theorem getElem?_noted {us T : List ℕ} {u : ℕ} (h : us ++ [u] <+: T) :
    T[us.length]? = some u := by
  obtain ⟨rest, rfl⟩ := h
  simp

/-- After a method without inputs. -/
theorem Bound.still {g' : Game} (hb : Bound T g p) (h : Still g g') :
    Bound T g' (p.seek g'.tape) := by
  obtain ⟨impure, chaos, htape⟩ := h.tape
  refine ⟨hb.playback, hb.tape, rfl, ?_, ?_, ?_⟩
  · exact hb.inputs.trans (by rw [htape])
  · exact hb.restarts.trans (by rw [htape])
  · exact hb.liveTick.trans h.liveTick.symm

theorem Bound.draw (hb : Bound T g p) (hs : g.source = .recorder) {q : Draw} {tr : List (Draw × ℚ)}
    {x : ℚ × Game} (h : (g.draw q).Gives tr x) (hT : x.2.tape.Before T) :
    p.draw q = .done (x.1, p.seek x.2.tape) := by
  unfold Game.draw at h ⊢
  rw [← hb.tape] at hT
  rw [hb.source]
  cases q with
  | impure =>
      simp only [hs] at h
      obtain ⟨v, tl, rfl, hnext⟩ := gives_ask.mp h
      obtain ⟨rfl, rfl⟩ := gives_done.mp hnext
      simp only [getElem?_noted hT.impure, Game.seek, List.length_append, List.length_singleton]
  | chaos =>
      simp only [hs] at h
      obtain ⟨v, tl, rfl, hnext⟩ := gives_ask.mp h
      obtain ⟨rfl, rfl⟩ := gives_done.mp hnext
      simp only [getElem?_noted hT.chaos, Game.seek, List.length_append, List.length_singleton]

/-- **A program that draws values**: the playback is told what live play was told. -/
theorem Bound.drawing {α : Type} {q : Asking Draw ℚ α} (hb : Bound T g p)
    (hs : g.source = .recorder) {tr : List (Draw × ℚ)} {x : α × Game}
    (h : (Game.drawing q g).Gives tr x) (hT : x.2.tape.Before T) :
    Game.drawing q p = .done (x.1, p.seek x.2.tape) := by
  induction q generalizing g p tr with
  | done a =>
      obtain ⟨rfl, rfl⟩ := gives_done.mp h
      rw [Game.drawing, Game.seek, ← hb.source]
  | ask q next ih =>
      obtain ⟨t, u, y, rfl, hy, hx⟩ := gives_bind.mp h
      have hstill := steady_still.draw q g t y hy
      have hmore := steady_still.drawing (next y.1) y.2 u x hx
      rw [Game.drawing, hb.draw hs hy (hmore.before.trans hT), done_bind]
      rw [ih y.1 (hb.still hstill) (hstill.source hs) hx]
      rfl

/-- The run, but for what some phases alone read. -/
def Run.like (run other : Run) : Run :=
  { run with
    crashTick := other.crashTick
    replayer := other.replayer
    replayTicksPerFrame := other.replayTicksPerFrame
    montage := other.montage }

/-- The playback has the run of live play. -/
structure Tied (T : Tape) (g p : Game) : Prop extends Bound T g p where
  run : ∃ other, p.run = g.run.like other

/-- What a phase reads besides. -/
def Shared : Phase → Run → Run → Prop
  | .crashing _, run, run' => run'.crashTick = run.crashTick
  | .replaying, run, run' => run'.crashTick = run.crashTick ∧ run'.replayer = run.replayer ∧
      run'.replayTicksPerFrame = run.replayTicksPerFrame
  | .montage _, run, run' => run'.montage = run.montage
  | _, _, _ => True

/-- The playback is in the state of live play. -/
structure Mirror (T : Tape) (g p : Game) : Prop extends Tied T g p where
  phase : p.phase = g.phase
  shared : Shared g.phase g.run p.run

/-- Whatever live play was told, the playback is done with what relates to its result. -/
def Echoes (T : Tape) (R : Game → Game → Prop) (live play : Asking Draw ℚ Game) : Prop :=
  ∀ tr g', live.Gives tr g' → g'.tape.Before T → ∃ p', play = .done p' ∧ R g' p'

theorem Echoes.done {R : Game → Game → Prop} {g' p' : Game} (h : R g' p') :
    Echoes T R (.done g') (.done p') := by
  intro tr g'' hg _
  obtain ⟨rfl, rfl⟩ := gives_done.mp hg
  exact ⟨p', rfl, h⟩

/-- Values are drawn, and the program goes on with them. -/
theorem Echoes.drawing {α : Type} {q : Asking Draw ℚ α} {f f' : α × Game → Asking Draw ℚ Game}
    {R : Game → Game → Prop} (hb : Bound T g p) (hs : g.source = .recorder)
    (hstill : ∀ x, (f x).Always (Still x.2))
    (hf : ∀ x, Drawn g x.2 → x.2.source = .recorder → Bound T x.2 (p.seek x.2.tape) →
      Echoes T R (f x) (f' (x.1, p.seek x.2.tape))) :
    Echoes T R (Game.drawing q g >>= f) (Game.drawing q p >>= f') := by
  intro tr g' h hT
  obtain ⟨t, u, x, rfl, hx, hg⟩ := gives_bind.mp h
  have hdraw := steady_still.drawing q g t x hx
  rw [hb.drawing hs hx ((hstill x u g' hg).before.trans hT), done_bind]
  exact hf x (drawing_spec q g t x hx).1 (hdraw.source hs) (hb.still hdraw) u g' hg hT

/-- The same, where nothing is drawn afterwards. -/
theorem Echoes.drawing_done {α : Type} {q : Asking Draw ℚ α} {k k' : α × Game → Game}
    {R : Game → Game → Prop} (hb : Bound T g p) (hs : g.source = .recorder)
    (htape : ∀ x, (k x).tape = x.2.tape)
    (hf : ∀ x, Drawn g x.2 → Bound T x.2 (p.seek x.2.tape) →
      R (k x) (k' (x.1, p.seek x.2.tape))) :
    Echoes T R (Game.drawing q g >>= fun x => .done (k x))
      (Game.drawing q p >>= fun x => .done (k' x)) := by
  intro tr g' h hT
  obtain ⟨t, u, x, rfl, hx, hg⟩ := gives_bind.mp h
  obtain ⟨rfl, rfl⟩ := gives_done.mp hg
  rw [htape] at hT
  rw [hb.drawing hs hx hT, done_bind]
  exact ⟨_, rfl, hf x (drawing_spec q g t x hx).1 (hb.still (steady_still.drawing q g t x hx))⟩

theorem Echoes.bind {live play : Asking Draw ℚ Game} {f f' : Game → Asking Draw ℚ Game}
    {R R' : Game → Game → Prop} {L : Game → Prop} (h : Echoes T R live play) (hl : live.Always L)
    (hstill : ∀ g', (f g').Always (Still g'))
    (hf : ∀ g' p', L g' → R g' p' → Echoes T R' (f g') (f' p')) :
    Echoes T R' (live >>= f) (play >>= f') := by
  intro tr g'' hg hT
  obtain ⟨t, u, g', rfl, hg', hnext⟩ := gives_bind.mp hg
  obtain ⟨p', rfl, hR⟩ := h t g' hg' ((hstill g' u g'' hnext).before.trans hT)
  exact hf g' p' (hl t g' hg') hR u g'' hnext hT

/-! ## 3. Segments -/

theorem Bound.change (hb : Bound T g p) {run run' : Run} {phase phase' : Phase}
    {pending pending' : List PlayerInput} {best best' dailyBest dailyBest' : ℕ}
    {store store' : Store} :
    Bound T { g with run, phase, pending, best, dailyBest, store }
      { p with
        run := run', phase := phase', pending := pending', best := best', dailyBest := dailyBest'
        store := store' } :=
  ⟨hb.playback, hb.tape, hb.source, hb.inputs, hb.restarts, hb.liveTick⟩

@[simp] theorem setPhase_tape (phase : Phase) : (g.setPhase phase).tape = g.tape := by
  obtain ⟨pending, h⟩ := setPhase_spec g phase
  rw [h]

@[simp] theorem save_tape : (g.save levels).tape = g.tape := by
  obtain ⟨store, h⟩ := save_spec levels g
  rw [h]

theorem Tied.setPhase (h : Tied T g p) {phase : Phase} (hs : Shared phase g.run p.run) :
    Mirror T (g.setPhase phase) (p.setPhase phase) := by
  obtain ⟨pending, hg⟩ := setPhase_spec g phase
  obtain ⟨pending', hp⟩ := setPhase_spec p phase
  rw [hg, hp]
  exact ⟨⟨h.toBound.change, h.run⟩, rfl, hs⟩

theorem Mirror.save (h : Mirror T g p) : Mirror T (g.save levels) (p.save levels) := by
  obtain ⟨store, hg⟩ := save_spec levels g
  obtain ⟨store', hp⟩ := save_spec levels p
  rw [hg, hp]
  exact ⟨⟨h.toBound.change, h.run⟩, h.phase, h.shared⟩

/-- What a segment that begins takes over from the one before. -/
structure Kin (run run' : Run) : Prop where
  runDate : run'.runDate = run.runDate
  stats : run'.stats = run.stats
  divergedAt : run'.divergedAt = run.divergedAt
  segments : run'.segments = run.segments

theorem Kin.begin_ {run run' : Run} (h : Kin run run') (start : StartInput) (due : Option ℚ) :
    run'.begin_ A levels start due = (run.begin_ A levels start due).like run' := by
  unfold Run.begin_ Run.like
  simp only [h.runDate, h.stats, h.divergedAt, h.segments]

theorem beginSegment_echo (hb : Bound T g p) (hs : g.source = .recorder) (hk : Kin g.run p.run)
    (start : StartInput) (showTip : Bool) :
    Echoes T (Mirror T) (Game.beginSegment A levels start showTip g)
      (Game.beginSegment A levels start showTip p) := by
  refine Echoes.drawing_done hb hs (fun x => by simp) fun x hd hb' => ?_
  obtain ⟨impure, chaos, source, hx⟩ := hd.frame
  refine Mirror.save (Tied.setPhase ⟨hb'.change, p.run, ?_⟩ ?_)
  · rw [hx]
    exact hk.begin_ start x.1
  · split <;> trivial

/-- The replay of a durable level starts over, whatever the state was. -/
theorem startReplay_durable (hb : Bound T g p) {other : Run}
    (hrun : p.run = { g.run.like other with state := other.state, rewind := other.rewind })
    (hcrash : p.run.crashTick = g.run.crashTick)
    (hd : (levels g.run.start.level).durable = true) :
    Mirror T (Game.startReplay A levels g) (Game.startReplay A levels p) := by
  have hstart : p.run.start = g.run.start := by rw [hrun]; rfl
  have hhistory : p.run.history = g.run.history := by rw [hrun]; rfl
  unfold Game.startReplay
  rw [hstart, hhistory, hcrash, if_pos hd, if_pos hd]
  refine Tied.setPhase ⟨hb.change, { p.run with
    replayer := some (createReplayer A levels g.run.start g.run.history g.run.crashTick)
    replayTicksPerFrame := Game.replaySpeed A g.run.crashTick }, ?_⟩ ⟨hcrash, rfl, rfl⟩
  rw [hrun]
  rfl

/-- **The replay starts.** -/
theorem startReplay_echo (h : Tied T g p) (hcrash : p.run.crashTick = g.run.crashTick) :
    Mirror T (Game.startReplay A levels g) (Game.startReplay A levels p) := by
  obtain ⟨other, ho⟩ := h.run
  by_cases hd : (levels g.run.start.level).durable = true
  · exact @startReplay_durable _ _ _ _ _ h.toBound p.run (by rw [ho]; rfl) hcrash hd
  · have hstart : p.run.start = g.run.start := by rw [ho]; rfl
    unfold Game.startReplay
    rw [hstart, if_neg hd, if_neg hd]
    refine Tied.setPhase ⟨?_, other, ?_⟩ trivial
    · split <;> split <;> exact h.toBound.change
    · split <;> split <;> exact ho

theorem startReplay_tape (g : Game) : (Game.startReplay A levels g).tape = g.tape := by
  unfold Game.startReplay
  dsimp only
  split
  · rw [setPhase_tape]
  · rw [setPhase_tape]
    split <;> rfl

/-- **A save is restored**, whatever the run was before. -/
theorem restoreSave_echo (hb : Bound T g p) (hs : g.source = .recorder) {b : SaveBody}
    (hd : (levels b.start.level).durable = true) :
    Echoes T (Mirror T) (Game.restoreSave A levels b g) (Game.restoreSave A levels b p) := by
  unfold Game.restoreSave Game.restartFromHistory
  dsimp only
  refine Echoes.drawing_done hb.change hs (fun x => startReplay_tape _) fun x hdrawn hb' => ?_
  obtain ⟨impure, chaos, source, hx⟩ := hdrawn.frame
  have hrun : x.2.run = { g.run with
      start := b.start, history := b.history, stats := b.stats, divergedAt := b.divergedAt
      segments := b.segments, orbValues := JsMap.ofPairs b.orbValues, runDate := b.date
      lived := b.lived, montage := none, crashTick := b.tick, queued := [] } := by rw [hx]
  refine @startReplay_durable A levels T _ _ hb'.change { p.run with montage := none, crashTick := b.tick }
    ?_ ?_ ?_
  · dsimp only [Game.seek]
    rw [hrun]
    rfl
  · dsimp only [Game.seek]
    rw [hrun]
  · dsimp only
    rw [hrun]
    exact hd

theorem closeSegment_echo (h : Tied T g p) {endTick endTick' : ℕ} (hend : endTick' = endTick) :
    Tied T (g.closeSegment levels endTick) (p.closeSegment levels endTick') := by
  obtain ⟨other, ho⟩ := h.run
  subst hend
  unfold Game.closeSegment
  refine ⟨h.toBound.change, other, ?_⟩
  unfold Run.closeSegment
  rw [ho]
  dsimp only [Run.like]
  split <;> rfl

theorem Tied.kin (h : Tied T g p) : Kin g.run p.run := by
  obtain ⟨other, ho⟩ := h.run
  rw [ho]
  exact ⟨rfl, rfl, rfl, rfl⟩

theorem Tied.eq (h : Tied T g p) : ∃ (q : Game) (other : Run),
    p = { q with run := g.run.like other } := by
  obtain ⟨other, ho⟩ := h.run
  exact ⟨p, other, by rw [← ho]⟩

theorem hotfix_echo (h : Tied T g p) (hs : g.source = .recorder) :
    Echoes T (Mirror T) (Game.hotfix A levels g) (Game.hotfix A levels p) := by
  obtain ⟨q, other, rfl⟩ := h.eq
  have hfixed : Tied T { g with run := { g.run with divergedAt := none } }
      { q with run := { g.run.like other with divergedAt := none } } :=
    ⟨h.toBound.change, other, rfl⟩
  have hclosed := @closeSegment_echo levels _ _ _ hfixed g.run.state.tick _ rfl
  exact beginSegment_echo hclosed.toBound hs hclosed.kin _ _

theorem replayed_echo (h : Tied T g p) (hs : g.source = .recorder) (state : GameState) :
    Echoes T (Mirror T) (Game.replayed A levels state g) (Game.replayed A levels state p) := by
  obtain ⟨other, ho⟩ := h.run
  unfold Game.replayed
  dsimp only
  refine Echoes.drawing_done h.toBound.change hs (fun x => setPhase_tape _) fun x hd hb' => ?_
  obtain ⟨impure, chaos, source, hx⟩ := hd.frame
  refine Tied.setPhase ⟨hb'.change, other, ?_⟩ trivial
  rw [hx]
  dsimp only [Game.seek]
  rw [ho]
  rfl

theorem incident_echo (h : Tied T g p) (hs : g.source = .recorder)
    (hcrash : p.run.crashTick = g.run.crashTick) (i : ℕ) (state : GameState) :
    Echoes T (Mirror T) (Game.incident A levels i state g) (Game.incident A levels i state p) := by
  obtain ⟨other, ho⟩ := h.run
  unfold Game.incident
  have hnoted : Tied T
      { g with run := { g.run with
        stats := { g.run.stats with
          fromHistory := g.run.stats.fromHistory + Game.activities (g.run.history.take i)
          incidents := g.run.stats.incidents + 1 }
        divergedAt := some i } }
      { p with run := { p.run with
        stats := { p.run.stats with
          fromHistory := p.run.stats.fromHistory + Game.activities (p.run.history.take i)
          incidents := p.run.stats.incidents + 1 }
        divergedAt := some i } } :=
    ⟨h.toBound.change, other, by rw [ho]; rfl⟩
  have hclosed := @closeSegment_echo levels _ _ _ hnoted _ _ hcrash
  refine (beginSegment_echo hclosed.toBound hs hclosed.kin _ _).bind
    (L := fun g' => g'.phase = .playing) ?_ (fun g' => ?_) fun g' p' hphase hm => ?_
  · refine Always.bind (P := fun _ => True) (fun _ _ _ => trivial) fun x _ => always_done.mpr ?_
    rw [save_phase, setPhase_phase]
    rfl
  · exact always_done.mpr (steady_still.run g' _ g'.pending g'.dailyBest)
  · obtain ⟨other', ho'⟩ := hm.run
    refine Echoes.done ⟨⟨hm.toBound.change, other', ?_⟩, hm.phase, ?_⟩
    · rw [ho']
      rfl
    · simp only [hphase, Shared]

/-- A frame of a replay. -/
theorem advanceReplay_echo (h : Mirror T g p) (hs : g.source = .recorder)
    (hphase : g.phase = .replaying) :
    Echoes T (Mirror T) (Game.advanceReplay A levels g) (Game.advanceReplay A levels p) := by
  obtain ⟨hcrash, hreplayer, hspeed⟩ : p.run.crashTick = g.run.crashTick ∧
      p.run.replayer = g.run.replayer ∧ p.run.replayTicksPerFrame = g.run.replayTicksPerFrame := by
    have := h.shared
    rwa [hphase] at this
  obtain ⟨other, ho⟩ := h.run
  have hrewind : p.run.rewind = g.run.rewind := by rw [ho]; rfl
  unfold Game.advanceReplay
  rw [hreplayer, hspeed, hrewind]
  cases hr : g.run.replayer with
  | none => exact Echoes.done h
  | some r =>
      dsimp only
      refine Echoes.drawing h.toBound hs (fun x => ?_) fun x hd hs' hb' => ?_
      · split
        · exact always_done.mpr (steady_still.run x.2 _ x.2.pending x.2.dailyBest)
        · split
          · exact (steady_still.replayed A levels _ _).mono fun g' hg' =>
              steady_still.trans (steady_still.run x.2 _ x.2.pending x.2.dailyBest) hg'
          · exact (steady_still.incident A levels _ _ _).mono fun g' hg' =>
              steady_still.trans (steady_still.run x.2 _ x.2.pending x.2.dailyBest) hg'
      · obtain ⟨impure, chaos, source, hx⟩ := hd.frame
        have hrun : x.2.run = g.run := by rw [hx]
        have hp : x.2.phase = .replaying := by rw [hx]; exact hphase
        have hrun' : (p.seek x.2.tape).run = g.run.like other := ho
        dsimp only
        by_cases hdone : x.1.1.done = false
        · rw [if_pos hdone, if_pos hdone]
          refine Echoes.done ⟨⟨hb'.change, { p.run with replayer := some x.1.1 }, ?_⟩, ?_, ?_⟩
          · rw [hrun', hrun, ho]
            rfl
          · exact h.phase.trans (hphase.trans hp.symm)
          · rw [hp]
            have hcrash' : p.run.crashTick = x.2.run.crashTick := by rw [hrun]; exact hcrash
            have hspeed' : p.run.replayTicksPerFrame = x.2.run.replayTicksPerFrame := by
              rw [hrun]
              exact hspeed
            exact ⟨hcrash', rfl, hspeed'⟩
        · rw [if_neg hdone, if_neg hdone]
          have htied : Tied T
              { x.2 with run := { x.2.run with
                state := x.1.1.state, rewind := x.1.2, replayer := none } }
              { p.seek x.2.tape with run := { (p.seek x.2.tape).run with
                state := x.1.1.state, rewind := x.1.2, replayer := none } } := by
            refine ⟨hb'.change, { p.run with replayer := none }, ?_⟩
            rw [hrun', hrun, ho]
            rfl
          split
          · exact replayed_echo htied hs' _
          · refine incident_echo htied hs' ?_ _ _
            rw [hrun]
            exact hcrash

/-! ## 4. Ticks -/

theorem gameOver_echo (h : Tied T g p) (today today' : Str) {reason reason' : Str}
    (hreason : reason' = reason) :
    Mirror T (g.gameOver today reason) (p.gameOver today' reason') := by
  subst hreason
  unfold Game.gameOver
  refine Tied.setPhase ?_ trivial
  obtain ⟨other, ho⟩ := h.run
  dsimp only
  refine ⟨?_, other, ?_⟩
  all_goals split_ifs
  all_goals first | exact h.toBound.change | exact ho

theorem crash_echo (h : Tied T g p) : Mirror T (g.crash levels) (p.crash levels) := by
  obtain ⟨q, other, rfl⟩ := h.eq
  refine Mirror.save (Tied.setPhase ⟨h.toBound.change, { other with
    crashTick := g.run.state.tick }, rfl⟩ rfl)

theorem rewindTo_echo (h : Tied T g p) (hs : g.source = .recorder) (hit target : GameState) :
    Echoes T (Mirror T) (Game.rewindTo A levels hit target g)
      (Game.rewindTo A levels hit target p) := by
  obtain ⟨q, other, rfl⟩ := h.eq
  unfold Game.rewindTo
  dsimp only [Run.like]
  refine Echoes.drawing_done h.toBound.change hs (fun x => by simp) fun x hd hb' => ?_
  obtain ⟨impure, chaos, source, hx⟩ := hd.frame
  refine Mirror.save (Tied.setPhase ⟨hb'.change, other, ?_⟩ trivial)
  rw [hx]
  rfl

theorem retry_echo (h : Tied T g p) (hs : g.source = .recorder) (hphase : g.phase = .playing)
    (hphase' : p.phase = .playing) (hit : GameState) :
    Echoes T (Mirror T) (Game.retry A levels hit g) (Game.retry A levels hit p) := by
  obtain ⟨other, ho⟩ := h.run
  have htarget : Game.retryTarget A levels p.run hit = Game.retryTarget A levels g.run hit := by
    rw [ho]
    rfl
  unfold Game.retry
  rw [htarget]
  cases Game.retryTarget A levels g.run hit with
  | none =>
      refine Echoes.done ⟨h, hphase'.trans hphase.symm, ?_⟩
      rw [hphase]
      trivial
  | some target => exact rewindTo_echo h hs hit target

/-- **A level is done.** -/
theorem levelDone_echo (h : Tied T g p) (hs : g.source = .recorder) (state : GameState) :
    Echoes T (Mirror T) (Game.levelDone A levels state g) (Game.levelDone A levels state p) := by
  obtain ⟨q, other, rfl⟩ := h.eq
  have hfixed : Tied T { g with run := { g.run with divergedAt := none } }
      { q with run := { g.run.like other with divergedAt := none } } :=
    ⟨h.toBound.change, other, rfl⟩
  have hclosed := @closeSegment_echo levels _ _ _ hfixed state.tick _ rfl
  have hs₁ : (({ g with run := { g.run with divergedAt := none } } : Game).closeSegment levels
    state.tick).source = .recorder := hs
  unfold Game.levelDone
  dsimp only
  generalize ({ g with run := { g.run with divergedAt := none } } : Game).closeSegment levels
    state.tick = g₁ at hclosed hs₁
  generalize ({ q with run := { g.run.like other with divergedAt := none } } : Game).closeSegment
    levels state.tick = p₁ at hclosed
  have hk := hclosed.kin
  rw [hk.segments]
  generalize (if (levels state.level).durable = true then g₁.run.segments else []) = segments
  have hbare : Bound T { g₁ with run := { g₁.run with segments := [] } }
      { p₁ with run := { p₁.run with segments := [] } } := hclosed.toBound.change
  refine (beginSegment_echo hbare hs₁ ⟨hk.runDate, hk.stats, hk.divergedAt, rfl⟩
    _ _).bind (L := fun _ => True) (fun _ _ _ => trivial) (fun g' => ?_) fun g' p' _ hm => ?_
  · cases segments with
    | nil => exact always_done.mpr (steady_still.refl g')
    | cons seg segs =>
        exact always_done.mpr (steady_still.trans (steady_still.run g' _ g'.pending g'.dailyBest)
          (steady_still.setPhase _ rfl))
  · cases segments with
    | nil => exact Echoes.done hm
    | cons seg segs =>
        obtain ⟨other', ho'⟩ := hm.run
        refine Echoes.done (Tied.setPhase ⟨hm.toBound.change, { other' with
          montage := some (.create A levels seg segs) }, ?_⟩ rfl)
        rw [ho']
        rfl

/-- A tick that needs no retry goes on, ends the level or ends the run. -/
theorem goOn_echo (h : Tied T g p) (hs : g.source = .recorder) (hphase : g.phase = .playing)
    (hphase' : p.phase = .playing) (today today' : Str) (r : StepResult) :
    Echoes T (Mirror T) (Game.goOn A levels today r g) (Game.goOn A levels today' r p) := by
  obtain ⟨q, other, rfl⟩ := h.eq
  unfold Game.goOn
  by_cases hfailed : r.state.status = .failed
  · rw [if_pos hfailed, if_pos hfailed]
    exact Echoes.done (gameOver_echo h _ _ rfl)
  rw [if_neg hfailed, if_neg hfailed]
  by_cases hdone : r.state.status = .levelDone
  · rw [if_pos hdone, if_pos hdone]
    exact levelDone_echo h hs r.state
  rw [if_neg hdone, if_neg hdone]
  have hpushed : Tied T { g with run := { g.run with rewind := g.run.rewind.push r.state } }
      { q with run := { g.run.like other with rewind := g.run.rewind.push r.state } } :=
    ⟨h.toBound.change, other, rfl⟩
  have hstay : Mirror T { g with run := { g.run with rewind := g.run.rewind.push r.state } }
      { q with run := { g.run.like other with rewind := g.run.rewind.push r.state } } := by
    refine ⟨hpushed, hphase'.trans hphase.symm, ?_⟩
    rw [hphase]
    trivial
  dsimp only [Run.like] at hpushed hstay ⊢
  split_ifs
  · exact hotfix_echo hpushed hs
  · exact Echoes.done hstay
  · exact Echoes.done (crash_echo hpushed)
  · exact Echoes.done hstay
  · exact Echoes.done hstay.save

theorem noteEvents_like (state : GameState) (events : List OutcomeEvent) (run other : Run) :
    Game.noteEvents A levels state events (run.like other) =
      Game.noteEvents A levels state events run >>= fun run' => .done (run'.like other) := by
  have hnote : ∀ (run : Run) (e : OutcomeEvent),
      Game.noteEvent (run.like other) e = (Game.noteEvent run e).like other := by
    intro run e
    unfold Game.noteEvent
    dsimp only
    split <;> rfl
  induction events generalizing run with
  | nil => rfl
  | cons e events ih =>
      rw [Game.noteEvents, Game.noteEvents, hnote]
      cases Game.chaosKind e.what with
      | none => exact ih _
      | some kind =>
          dsimp only
          rw [bind_bind]
          exact congrArg _ (funext fun dueAt => ih { Game.noteEvent run e with dueAt })

theorem drawing_map {α β : Type} (f : α → β) (q : Asking Draw ℚ α) (g : Game) :
    Game.drawing (q >>= fun a => .done (f a)) g =
      Game.drawing q g >>= fun x => .done (f x.1, x.2) := by
  induction q generalizing g with
  | done a => rfl
  | ask q next ih =>
      rw [ask_bind, Game.drawing, Game.drawing, bind_bind]
      exact congrArg _ (funext fun x => ih x.1 x.2)

/-- What a tick does once its step is taken. -/
theorem afterStep_echo (h : Tied T g p) (hs : g.source = .recorder) (hphase : g.phase = .playing)
    (hphase' : p.phase = .playing) (today today' : Str) (r : StepResult) (calls : List ℚ) :
    Echoes T (Mirror T) (Game.afterStep A levels today r calls g)
      (Game.afterStep A levels today' r calls p) := by
  unfold Game.afterStep
  by_cases hretry : r.state.status = .retry
  · rw [if_pos hretry, if_pos hretry]
    exact retry_echo h hs hphase hphase' r.state
  rw [if_neg hretry, if_neg hretry]
  obtain ⟨q, other, rfl⟩ := h.eq
  have hnote := @noteEvents_like A levels r.state r.events
    { g.run with
      state := r.state
      orbValues := Game.noteOrbs r.events calls g.run.orbValues
      lived := { g.run.lived with state := r.state } } other
  dsimp only [Run.like] at hnote ⊢
  rw [hnote, drawing_map, bind_bind]
  refine Echoes.drawing h.toBound hs (fun x => ?_) fun x hd hs' hb' => ?_
  · exact (steady_still.goOn A levels _ _ _).mono fun g' hg' =>
      steady_still.trans (steady_still.run x.2 _ x.2.pending x.2.dailyBest) hg'
  · obtain ⟨impure, chaos, source, hx⟩ := hd.frame
    have htied : Tied T { x.2 with run := x.1 }
        { ({ q with run := g.run.like other } : Game).seek x.2.tape with run := x.1.like other } :=
      ⟨hb'.change, other, rfl⟩
    refine goOn_echo htied hs' ?_ hphase' today today' r
    rw [hx]
    exact hphase

/-- The inputs of a tick are on the tape, and no others at its live tick. -/
theorem takeInputs_echo (h : Tied T g p) (hl : Live g) (hT : g.takeInputs.2.tape.Before T) :
    p.takeInputs.1 = g.takeInputs.1 ∧ Tied T g.takeInputs.2 p.takeInputs.2 := by
  obtain ⟨other, ho⟩ := h.run
  have hplay : ¬g.playback = true := by rw [hl.playback]; decide
  unfold Game.takeInputs at hT ⊢
  dsimp only at hT ⊢
  rw [if_neg hplay] at hT
  rw [if_pos h.playback, if_neg hplay]
  obtain ⟨rest, hrest, htick⟩ := hT.inputs
  have htaken : (p.tape.inputs.drop p.inputCursor).takeWhile (fun i => decide (i.1 = p.liveTick)) =
      g.pending.map fun k => (g.liveTick, k) := by
    dsimp only at hrest htick
    have hnone : rest.takeWhile (fun i => decide (i.1 = g.liveTick)) = [] := by
      cases rest with
      | nil => rfl
      | cons i rest =>
          have := htick i List.mem_cons_self
          rw [List.takeWhile_cons, if_neg]
          simp only [decide_eq_true_eq]
          exact (Nat.lt_of_succ_le this).ne'
    rw [h.tape, hrest, h.inputs, h.liveTick, List.append_assoc, List.drop_left,
      List.takeWhile_append_of_pos, hnone, List.append_nil]
    · intro i hi
      obtain ⟨k, _, rfl⟩ := List.mem_map.mp hi
      exact decide_eq_true rfl
  rw [htaken]
  refine ⟨?_, ⟨⟨h.playback, h.tape, h.source, ?_, h.restarts, ?_⟩, other, ho⟩⟩
  · rw [List.map_map]
    exact List.map_id _
  · dsimp only
    rw [h.inputs, List.length_append]
  · dsimp only
    rw [h.liveTick]

/-- **A tick.** -/
theorem tick_echo (h : Mirror T g p) (hl : Live g) (hphase : g.phase = .playing)
    (today today' : Str) :
    Echoes T (Mirror T) (Game.tick A levels today g) (Game.tick A levels today' p) := by
  intro tr g' hg' hT
  have hstill := steady_still.tick A levels today g tr g' hg'
  obtain ⟨hkinds, htied⟩ := takeInputs_echo h.toTied hl (hstill.before.trans hT)
  obtain ⟨tape, liveTick, inputCursor, hg₁⟩ := takeInputs_frame g
  have hs : g.takeInputs.2.source = .recorder := by
    rw [hg₁]
    exact hl.source
  have hphase₁ : g.takeInputs.2.phase = .playing := by
    rw [hg₁]
    exact hphase
  have hphase₂ : p.takeInputs.2.phase = .playing := by
    obtain ⟨_, _, _, hp₁⟩ := takeInputs_frame p
    rw [hp₁]
    exact h.phase.trans hphase
  obtain ⟨other, ho⟩ := h.run
  refine (?_ : Echoes T (Mirror T) (Game.tick A levels today g) (Game.tick A levels today' p))
    tr g' hg' hT
  unfold Game.tick
  dsimp only
  rw [hkinds, ho]
  refine Echoes.drawing htied.toBound.change hs
    (fun x => steady_still.afterStep A levels today _ _ _) fun x hd hs' hb' => ?_
  obtain ⟨impure, chaos, source, hx⟩ := hd.frame
  refine afterStep_echo ⟨hb', other, ?_⟩ hs' ?_ hphase₂ today today' _ _
  · rw [hx]
    rfl
  · rw [hx]
    exact hphase₁

/-! ## 5. Frames -/

theorem confirm_echo (h : Mirror T g p) (hs : g.source = .recorder) :
    Echoes T (Mirror T) (Game.confirm A levels g) (Game.confirm A levels p) := by
  have hstay := Echoes.done (T := T) h
  unfold Game.confirm
  rw [h.phase]
  obtain ⟨other, ho⟩ := h.run
  generalize hph : g.phase = phase
  cases phase with
  | tip level => exact Echoes.done (Tied.setPhase h.toTied trivial)
  | lost =>
      have hdate : p.run.runDate = g.run.runDate := by rw [ho]; rfl
      have hbound : Bound T { g with run := { g.run with stats := emptyStats }, phase := .lost }
          { p with run := { p.run with stats := emptyStats }, phase := .lost } := h.toBound.change
      have hkin : Kin { g.run with stats := emptyStats } { p.run with stats := emptyStats } := by
        rw [ho]
        exact ⟨rfl, rfl, rfl, rfl⟩
      rw [hdate]
      exact beginSegment_echo hbound hs hkin _ _
  | title => exact hstay
  | resume tick => exact hstay
  | playing => exact hstay
  | paused => exact hstay
  | crashing n => exact hstay
  | replaying => exact hstay
  | rewinding frames index attempt of => exact hstay
  | montage n => exact hstay
  | over_ reason => exact hstay

/-- **A frame** without ticks. -/
theorem frameBody_echo (h : Mirror T g p) (hs : g.source = .recorder) (hphase : g.phase ≠ .playing)
    (today today' : Str) (n n' : ℕ) :
    Echoes T (Mirror T) (Game.frameBody A levels today n g)
      (Game.frameBody A levels today' n' p) := by
  have hstay := Echoes.done (T := T) h
  have hshared := h.shared
  unfold Game.frameBody
  rw [h.phase]
  generalize hph : g.phase = phase at hshared hphase
  cases phase with
  | playing => exact absurd rfl hphase
  | crashing k =>
      dsimp only
      by_cases hk : 1 < k
      · rw [if_pos hk, if_pos hk]
        exact Echoes.done ⟨⟨h.toBound.change, h.run⟩, rfl, hshared⟩
      · rw [if_neg hk, if_neg hk]
        exact Echoes.done (startReplay_echo h.toTied hshared)
  | replaying => exact advanceReplay_echo h hs hph
  | rewinding frames index attempt of =>
      dsimp only
      by_cases hmore : index + 1 < frames.length
      · rw [if_pos hmore, if_pos hmore]
        exact Echoes.done ⟨⟨h.toBound.change, h.run⟩, rfl, trivial⟩
      · rw [if_neg hmore, if_neg hmore]
        exact Echoes.done (Tied.setPhase h.toTied trivial)
  | montage k =>
      obtain ⟨q, other, rfl⟩ := h.toTied.eq
      have hm : other.montage = g.run.montage := hshared
      dsimp only [Run.like]
      rw [hm]
      by_cases hdone : (g.run.montage.map (Montage.advance A levels)).all Montage.isDone = true
      · rw [if_pos hdone, if_pos hdone]
        exact Echoes.done (Tied.setPhase
          ⟨h.toBound.change, { other with montage := none }, rfl⟩ trivial)
      · rw [if_neg hdone, if_neg hdone]
        exact Echoes.done ⟨⟨h.toBound.change, { other with
          montage := g.run.montage.map (Montage.advance A levels) }, rfl⟩, rfl, rfl⟩
  | title => exact hstay
  | resume tick => exact hstay
  | tip level => exact hstay
  | paused => exact hstay
  | lost => exact hstay
  | over_ reason => exact hstay

end DevDashboard.Web.Replay
