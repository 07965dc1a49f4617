/-
  File:      DevDashboard/Web/Replay/Invariant.lean
  Subject:   WHAT EVERY METHOD OF A GAME KEEPS.

  `Good` is the invariant of a game: what its phase needs of the run (`RunAt`), what does not depend
  on the phase (`Base`), and that the save in the store is one of the open segment (`Stored`). There
  is one lemma for each method of the program, and one for all of them together in `frame_good` and
  `command_good`.
-/
import DevDashboard.Web.Replay.Segment
import DevDashboard.Web.Replay.Steady

namespace DevDashboard.Web.Replay

open Lib Asking

variable (A : Arith) (levels : LevelTable) (strict : Prop)

/-! ## 1. Saves, tapes and the store -/

/-- A closed segment: it was open at its last tick. -/
structure SegmentOk (seg : MontageSegment) : Prop where
  opened : ∃ queued, OpenAt A levels strict seg.start seg.history seg.orbValues queued seg.lived
  tick : seg.lived.state.tick = seg.endTick

/-- A save: a segment that is open at its tick, and the closed ones before it. -/
structure SaveOk (b : SaveBody) : Prop where
  opened : ∃ queued, OpenAt A levels strict b.start b.history b.orbValues queued b.lived
  running : b.lived.state.status = .running
  tick : b.lived.state.tick = b.tick
  segments : ∀ seg ∈ b.segments, SegmentOk A levels strict seg
  date : isDateText b.date = true

/-- A tape as a recorder writes it. -/
structure TapeOk (t : Tape) : Prop where
  date : isDateText t.date = true
  ordered : t.inputs.Pairwise fun i j => i.1 ≤ j.1
  played : ∀ i ∈ t.inputs, i.1 < t.liveTick
  impure : ∀ u ∈ t.impure, u < 2 ^ 32
  chaos : ∀ u ∈ t.chaos, u < 2 ^ 32
  restarts : ∀ r ∈ t.restarts, SaveOk A levels strict r.save

/-- What the store holds or was handed. -/
structure StoreOk (s : Store) : Prop where
  save : ∀ x, s.save = some x → SaveOk A levels strict x.body ∧ TapeOk A levels strict x.tape
  handed : ∀ x ∈ s.handed, SaveOk A levels strict x.body ∧ TapeOk A levels strict x.tape
  closed : ∀ seg ∈ s.closed, SegmentOk A levels strict seg

/-! ## 2. The invariant -/

/-- A run in live play. -/
structure LiveAt (run : Run) : Prop where
  opened : OpenAt A levels strict run.start run.history run.orbValues run.queued run.lived
  state : run.lived.state = run.state
  running : run.state.status = .running
  buffer : BufferOk A levels strict run.start run.history run.orbValues run.state run.rewind

/-- A run that is being replayed. -/
structure ReplayRun (run : Run) : Prop where
  replaying : ∃ r, run.replayer = some r ∧ ReplayingAt A levels strict run.start run.history
    run.orbValues run.lived r run.rewind ∧ run.state = r.state ∧ ∃ k tr,
      ((createReplayer A levels run.start run.history run.crashTick).advance A levels k).Gives tr r
  tick : run.lived.state.tick = run.crashTick
  speed : run.replayTicksPerFrame = Game.replaySpeed A run.crashTick

/-- The replayer of a montage is that of its segment, some ticks on. -/
def Montage.UnderWay (m : Montage) : Prop :=
  ∀ seg, m.segments[m.index]? = some seg → ∃ k,
    ((Montage.openSegment A levels seg).1.advance A levels k).answer shift
      (Montage.openSegment A levels seg).2 = (m.replayer, m.queue)

/-- A montage: it goes on, of closed segments, through the one it has come to. -/
structure MontageOk (m : Montage) : Prop where
  paced : 0 < m.ticksPerFrame
  segments : ∀ seg ∈ m.segments, SegmentOk A levels strict seg
  underWay : m.UnderWay A levels

/-- What a phase needs of the run. -/
def RunAt (phase : Phase) (run : Run) : Prop :=
  match phase with
  | .title | .resume _ | .lost | .over_ _ => True
  | .crashing _ => LiveAt A levels strict run ∧ run.crashTick = run.state.tick
  | .replaying => ReplayRun A levels strict run
  | .montage _ => LiveAt A levels strict run ∧
      ∀ m, run.montage = some m → MontageOk A levels strict m
  | .tip _ | .playing | .paused | .rewinding _ _ _ _ => LiveAt A levels strict run

/-- What holds in every phase. -/
structure Base (g : Game) : Prop where
  segments : ∀ seg ∈ g.run.segments, SegmentOk A levels strict seg
  date : isDateText g.run.runDate = true
  tape : TapeOk A levels strict g.tape
  live : g.playback = false → g.liveTick = g.tape.liveTick
  store : StoreOk A levels strict g.store

/-- The phases in which a segment is open. -/
def Phase.open_ : Phase → Bool
  | .title | .resume _ | .lost | .over_ _ => false
  | _ => true

/-- The store has a save of the open segment, with all its rewinds. -/
def Stored (g : Game) : Prop :=
  g.playback = false → (levels g.run.start.level).durable = true →
    ∃ s, g.store.save = some s ∧ s.body.start = g.run.start ∧
      s.body.lived.rewinds = g.run.lived.rewinds

/-- **The invariant of a game** that is being played, or plays a tape a recorder wrote. -/
structure Good (g : Game) : Prop where
  base : Base A levels strict g
  run : RunAt A levels strict g.phase g.run
  stored : g.phase.open_ = true → Stored levels g

variable {A levels strict} {g : Game}

/-! ## 3. Phases and saves -/

theorem RunAt.saveBody {tick : ℕ} (h : RunAt A levels strict g.phase g.run)
    (hb : Base A levels strict g) (ht : g.saveTick = some tick) :
    SaveOk A levels strict (Game.bodyAt g.run tick) := by
  have hlive : LiveAt A levels strict g.run → tick = g.run.state.tick →
      SaveOk A levels strict (Game.bodyAt g.run tick) := by
    intro h ht
    exact ⟨⟨_, h.opened⟩, by rw [Game.bodyAt, h.state]; exact h.running,
      by rw [Game.bodyAt, h.state, ht], hb.segments, hb.date⟩
  have hreplay : ReplayRun A levels strict g.run → tick = g.run.crashTick →
      SaveOk A levels strict (Game.bodyAt g.run tick) := by
    intro h ht
    obtain ⟨r, _, hr, _, _⟩ := h.replaying
    obtain ⟨queued, hopen, _⟩ := hr.opened
    exact ⟨⟨_, hopen⟩, hr.running, h.tick.trans ht.symm, hb.segments, hb.date⟩
  unfold Game.saveTick at ht
  generalize g.phase = phase at h ht
  cases phase with
  | title => simp at ht
  | resume tick => simp at ht
  | lost => simp at ht
  | over_ reason => simp at ht
  | crashing n => exact hlive h.1 (by rw [← h.2]; exact (Option.some.inj ht).symm)
  | replaying => exact hreplay h (Option.some.inj ht).symm
  | montage n => exact hlive h.1 (Option.some.inj ht).symm
  | tip level => exact hlive h (Option.some.inj ht).symm
  | playing => exact hlive h (Option.some.inj ht).symm
  | paused => exact hlive h (Option.some.inj ht).symm
  | rewinding frames index attempt of => exact hlive h (Option.some.inj ht).symm

theorem saveTick_of_open (h : g.phase.open_ = true) : ∃ tick, g.saveTick = some tick := by
  unfold Game.saveTick
  generalize g.phase = phase at h ⊢
  cases phase <;> first | exact ⟨_, rfl⟩ | cases h

theorem StoreOk.put {s : Store} (h : StoreOk A levels strict s) {x : Save}
    (hx : SaveOk A levels strict x.body ∧ TapeOk A levels strict x.tape) :
    StoreOk A levels strict (s.put x) where
  save := by
    intro y hy
    obtain rfl := Option.some.inj hy
    exact hx
  handed := by
    intro y hy
    rcases List.mem_append.mp hy with hy | hy
    · exact h.handed y hy
    · rw [List.mem_singleton.mp hy]
      exact hx
  closed := h.closed

/-- **A save** leaves a good game, with the open segment in the store. -/
theorem save_good (hb : Base A levels strict g) (hr : RunAt A levels strict g.phase g.run) :
    Good A levels strict (g.save levels) := by
  unfold Game.save
  by_cases hp : g.playback = true
  · rw [if_pos hp]
    exact ⟨hb, hr, fun _ h => absurd (hp.symm.trans h) (by decide)⟩
  rw [if_neg hp]
  cases ht : g.saveTick with
  | none =>
      refine ⟨hb, hr, fun hopen => ?_⟩
      obtain ⟨tick, hsome⟩ := saveTick_of_open hopen
      rw [ht] at hsome
      cases hsome
  | some tick =>
      have hx := hr.saveBody hb ht
      by_cases hd : (levels g.run.start.level).durable = true
      · simp only [if_pos hd]
        exact ⟨⟨hb.segments, hb.date, hb.tape, hb.live, hb.store.put ⟨hx, hb.tape⟩⟩, hr,
          fun _ _ _ => ⟨_, rfl, rfl, rfl⟩⟩
      · simp only [if_neg hd]
        exact ⟨hb, hr, fun _ _ h => absurd h hd⟩

theorem base_setPhase (hb : Base A levels strict g) (phase : Phase) :
    Base A levels strict (g.setPhase phase) := by
  obtain ⟨pending, h⟩ := setPhase_spec g phase
  rw [h]
  exact ⟨hb.segments, hb.date, hb.tape, hb.live, hb.store⟩

theorem setPhase_good (hb : Base A levels strict g) {phase : Phase}
    (hr : RunAt A levels strict phase g.run) (hs : phase.open_ = true → Stored levels g) :
    Good A levels strict (g.setPhase phase) := by
  obtain ⟨pending, h⟩ := setPhase_spec g phase
  rw [h]
  exact ⟨⟨hb.segments, hb.date, hb.tape, hb.live, hb.store⟩, hr, hs⟩

theorem setPhase_save_good (hb : Base A levels strict g) {phase : Phase}
    (hr : RunAt A levels strict phase g.run) :
    Good A levels strict ((g.setPhase phase).save levels) := by
  have hb' := base_setPhase hb phase
  obtain ⟨pending, h⟩ := setPhase_spec g phase
  rw [h] at hb' ⊢
  exact save_good hb' hr

/-! ## 4. Values from outside -/

/-- What drawing values may change. -/
structure Drawn (g g' : Game) : Prop where
  frame : ∃ impure chaos source, g' = { g with tape := { g.tape with impure, chaos }, source }
  tape : ∀ {A levels strict}, TapeOk A levels strict g.tape → TapeOk A levels strict g'.tape

theorem quantise_lt (v : ℚ) : quantise v < 2 ^ 32 := by
  unfold quantise
  omega

theorem Drawn.refl (g : Game) : Drawn g g := ⟨⟨_, _, _, rfl⟩, id⟩

theorem Drawn.trans {g g' g'' : Game} (h : Drawn g g') (h' : Drawn g' g'') : Drawn g g'' := by
  obtain ⟨i, c, s, rfl⟩ := h.frame
  obtain ⟨i', c', s', rfl⟩ := h'.frame
  exact ⟨⟨i', c', s', rfl⟩, h'.tape ∘ h.tape⟩

theorem draw_drawn (q : Draw) : (g.draw q).Always fun x => Drawn g x.2 := by
  have hadd : ∀ {A levels strict} (v : ℚ), TapeOk A levels strict g.tape →
      TapeOk A levels strict { g.tape with impure := g.tape.impure ++ [quantise v] } ∧
      TapeOk A levels strict { g.tape with chaos := g.tape.chaos ++ [quantise v] } := by
    intro A levels strict v h
    have hu : ∀ {us : List ℕ}, (∀ u ∈ us, u < 2 ^ 32) → ∀ u ∈ us ++ [quantise v], u < 2 ^ 32 := by
      intro us hus u hmem
      rcases List.mem_append.mp hmem with hmem | hmem
      · exact hus u hmem
      · rw [List.mem_singleton.mp hmem]
        exact quantise_lt v
    exact ⟨⟨h.date, h.ordered, h.played, hu h.impure, h.chaos, h.restarts⟩,
      ⟨h.date, h.ordered, h.played, h.impure, hu h.chaos, h.restarts⟩⟩
  unfold Game.draw
  cases q with
  | impure =>
      cases g.source with
      | recorder =>
          refine always_ask.mpr fun v => always_done.mpr ⟨⟨_, _, _, rfl⟩, fun h => ?_⟩
          exact (hadd v h).1
      | player i c e =>
          simp only
          split
          · exact always_done.mpr ⟨⟨_, _, _, rfl⟩, id⟩
          · exact always_done.mpr ⟨⟨_, _, _, rfl⟩, id⟩
  | chaos =>
      cases g.source with
      | recorder =>
          refine always_ask.mpr fun v => always_done.mpr ⟨⟨_, _, _, rfl⟩, fun h => ?_⟩
          exact (hadd v h).2
      | player i c e =>
          simp only
          split
          · exact always_done.mpr ⟨⟨_, _, _, rfl⟩, id⟩
          · exact always_done.mpr ⟨⟨_, _, _, rfl⟩, id⟩

/-- **Drawing** runs the program on some answers and changes nothing but tape and source. -/
theorem drawing_spec {α : Type} (p : Asking Draw ℚ α) (g : Game) :
    (Game.drawing p g).Always fun x => Drawn g x.2 ∧ ∃ tr, p.Gives tr x.1 := by
  induction p generalizing g with
  | done a => exact always_done.mpr ⟨.refl g, [], .done a⟩
  | ask q next ih =>
      refine (draw_drawn q).bind fun x hx => (ih x.1 x.2).mono fun y hy => ?_
      obtain ⟨hd, tr, htr⟩ := hy
      exact ⟨hx.trans hd, _, .ask htr⟩

theorem Base.drawn {g' : Game} (hb : Base A levels strict g) (h : Drawn g g') :
    Base A levels strict g' := by
  have htape := h.tape hb.tape
  obtain ⟨i, c, s, rfl⟩ := h.frame
  exact ⟨hb.segments, hb.date, htape, hb.live, hb.store⟩

/-! ## 5. Segments begin, crash and are replayed -/

theorem liveAt_begin (run : Run) (start : StartInput) (due : Option ℚ) :
    LiveAt A levels strict (run.begin_ A levels start due) :=
  ⟨openAt_initial start, rfl, rfl, bufferOk_reset start [] []⟩

/-- **A segment begins**, from anything. -/
theorem beginSegment_good (hb : Base A levels strict g) (start : StartInput) (showTip : Bool) :
    (Game.beginSegment A levels start showTip g).Always fun g' =>
      Good A levels strict g' ∧ (∃ (run : Run) (due : Option ℚ), g'.run = run.begin_ A levels start due) ∧
        g'.phase = if showTip then .tip start.level else .playing := by
  refine (drawing_spec _ g).bind fun x hx => always_done.mpr ?_
  have hbase := hb.drawn hx.1
  obtain ⟨due, g₁⟩ := x
  simp only at hbase ⊢
  have hlive := @liveAt_begin A levels strict g₁.run start due
  refine ⟨setPhase_save_good ?_ ?_, ⟨g₁.run, due, by simp⟩, by simp⟩
  · exact ⟨hbase.segments, hbase.date, hbase.tape, hbase.live, hbase.store⟩
  · split <;> exact hlive

theorem crash_good (hb : Base A levels strict g) (hl : LiveAt A levels strict g.run) :
    Good A levels strict (g.crash levels) :=
  setPhase_save_good (g := { g with run := { g.run with crashTick := g.run.state.tick } })
    ⟨hb.segments, hb.date, hb.tape, hb.live, hb.store⟩
    ⟨⟨hl.opened, hl.state, hl.running, hl.buffer⟩, rfl⟩

theorem StoreOk.clear {s : Store} (h : StoreOk A levels strict s) :
    StoreOk A levels strict s.clear where
  save := fun _ hx => by cases hx
  handed := h.handed
  closed := h.closed

/-- **The replay starts** from an open segment and the tick it is open at. -/
theorem startReplay_good (hb : Base A levels strict g)
    (hopen : ∃ queued, OpenAt A levels strict g.run.start g.run.history g.run.orbValues queued
      g.run.lived) (hrun : g.run.lived.state.status = .running)
    (htick : g.run.lived.state.tick = g.run.crashTick) (hs : Stored levels g) :
    Good A levels strict (Game.startReplay A levels g) := by
  unfold Game.startReplay
  by_cases hd : (levels g.run.start.level).durable = true
  · rw [if_pos hd]
    obtain ⟨queued, hopen⟩ := hopen
    refine setPhase_good ?_ ?_ fun _ => ?_
    · exact ⟨hb.segments, hb.date, hb.tape, hb.live, hb.store⟩
    · refine ⟨⟨_, rfl, ?_, rfl, 0, [], .done _⟩, htick, rfl⟩
      simp only
      rw [← htick]
      exact .create hopen hrun
    · exact hs
  · rw [if_neg hd]
    refine setPhase_good ?_ trivial fun h => by cases h
    by_cases hp : g.playback = true
    · rw [if_pos hp]
      exact hb
    · rw [if_neg hp]
      exact ⟨hb.segments, hb.date, hb.tape, hb.live, hb.store.clear⟩

theorem StoreOk.close {s : Store} (h : StoreOk A levels strict s) {seg : MontageSegment}
    (hseg : SegmentOk A levels strict seg) : StoreOk A levels strict (s.close seg) where
  save := h.save
  handed := h.handed
  closed := by
    intro x hx
    rcases List.mem_append.mp hx with hx | hx
    · exact h.closed x hx
    · rw [List.mem_singleton.mp hx]
      exact hseg

/-- **A segment is closed** at the tick it is open at. -/
theorem closeSegment_base (hb : Base A levels strict g) {endTick : ℕ}
    (hopen : ∃ queued, OpenAt A levels strict g.run.start g.run.history g.run.orbValues queued
      g.run.lived) (htick : g.run.lived.state.tick = endTick) :
    Base A levels strict (g.closeSegment levels endTick) := by
  have hseg : SegmentOk A levels strict (g.run.closing endTick) := ⟨hopen, htick⟩
  refine ⟨?_, ?_, hb.tape, hb.live, ?_⟩
  · unfold Game.closeSegment Run.closeSegment
    dsimp only
    split
    · intro x hx
      rcases List.mem_append.mp hx with hx | hx
      · exact hb.segments x hx
      · rw [List.mem_singleton.mp hx]
        exact hseg
    · exact hb.segments
  · unfold Game.closeSegment Run.closeSegment
    dsimp only
    split
    · exact hb.date
    · exact hb.date
  · unfold Game.closeSegment
    dsimp only
    split
    · exact hb.store
    · exact hb.store.close hseg

theorem hotfix_good (hb : Base A levels strict g) (hl : LiveAt A levels strict g.run) :
    (Game.hotfix A levels g).Always (Good A levels strict) := by
  unfold Game.hotfix
  refine (beginSegment_good ?_ _ _).mono fun _ h => h.1
  refine closeSegment_base ?_ ⟨_, hl.opened⟩ ?_
  · exact ⟨hb.segments, hb.date, hb.tape, hb.live, hb.store⟩
  · exact congrArg GameState.tick hl.state

/-- **A replay that has diverged** ends in a segment of its own. -/
theorem incident_good (hb : Base A levels strict g)
    (hopen : ∃ queued, OpenAt A levels strict g.run.start g.run.history g.run.orbValues queued
      g.run.lived) (htick : g.run.lived.state.tick = g.run.crashTick) (i : ℕ) (state : GameState) :
    (Game.incident A levels i state g).Always (Good A levels strict) := by
  unfold Game.incident
  refine (@beginSegment_good A levels strict _ ?_ _ _).bind fun g' h => ?_
  · refine closeSegment_base ?_ hopen htick
    exact ⟨hb.segments, hb.date, hb.tape, hb.live, hb.store⟩
  · refine always_done.mpr ?_
    obtain ⟨hg, ⟨run, due, hrun⟩, hphase⟩ := h
    have hlive := @liveAt_begin A levels strict run
      { continueAsNew A state with boss := true } due
    rw [← hrun] at hlive
    have htick0 : g'.run.lived.state.tick = 0 := by rw [hrun]; rfl
    have hres := hlive.opened.resume
    have hbuf := hlive.buffer.snoc (e := .input ⟨0, .orchestratorStarted⟩) (by
      rw [← hlive.state]
      exact htick0.symm)
    rw [htick0] at hres
    refine ⟨⟨hg.base.segments, hg.base.date, hg.base.tape, hg.base.live, hg.base.store⟩, ?_, ?_⟩
    · simp only [hphase, Bool.false_eq_true, if_false]
      exact ⟨hres, hlive.state, hlive.running, hbuf⟩
    · exact fun hopen => hg.stored hopen

/-- **An accepted replay** goes on in live play. -/
theorem replayed_good (hb : Base A levels strict g) {r : Replayer}
    (hr : ReplayingAt A levels strict g.run.start g.run.history g.run.orbValues g.run.lived r
      g.run.rewind) (hdone : r.done = true) (hdiv : r.divergedAt = none)
    (hdet : strict → Determined A levels g.run.start g.run.history) (hs : Stored levels g) :
    (Game.replayed A levels r.state g).Always (Good A levels strict) := by
  obtain ⟨_, hrun, queued, hopen, hbuf⟩ := hr.accepted hdone hdiv hdet
  unfold Game.replayed
  refine (drawing_spec _ _).bind fun x hx => always_done.mpr ?_
  obtain ⟨due, g₁⟩ := x
  have hbase := @Base.drawn A levels strict _ _ ?_ hx.1
  · obtain ⟨impure, chaos, source, rfl⟩ := hx.1.frame
    have hq := hopen.queued_eq
    simp only at hq
    refine setPhase_good ?_ ?_ fun _ => ?_
    · exact ⟨hbase.segments, hbase.date, hbase.tape, hbase.live, hbase.store⟩
    · refine ⟨?_, rfl, hrun, hbuf.snoc rfl⟩
      simp only [Run.recordInput]
      rw [hq]
      exact hopen.resume
    · exact hs
  · exact ⟨hb.segments, hb.date, hb.tape, hb.live, hb.store⟩

/-- A frame of a replay. -/
theorem advanceReplay_good (hg : Good A levels strict g) (hphase : g.phase = .replaying)
    (hdet : strict → Determined A levels g.run.start g.run.history) :
    (Game.advanceReplay A levels g).Always (Good A levels strict) := by
  obtain ⟨hb, hr, hs⟩ := hg
  rw [hphase] at hr hs
  obtain ⟨⟨r, hreplayer, hr, hstate, k, u, hstage⟩, htick, hspeed⟩ := hr
  have hs := hs rfl
  unfold Game.advanceReplay
  rw [hreplayer]
  refine ((drawing_spec _ g)).bind fun x hx => ?_
  obtain ⟨hd, t, ht⟩ := hx
  have hnext := hr.replayTicks g.run.replayTicksPerFrame t x.1 ht
  obtain ⟨j, v, hmore⟩ := replayTicks_stage _ _ _ t x.1 ht
  have hbase := hb.drawn hd
  obtain ⟨⟨r', rewind⟩, g₁⟩ := x
  obtain ⟨impure, chaos, source, rfl⟩ := hd.frame
  simp only at hnext hbase ⊢
  obtain ⟨queued, hopen, hfollows⟩ := hnext.opened
  by_cases hdone : r'.done = false
  · rw [if_pos hdone]
    refine always_done.mpr ⟨⟨hbase.segments, hbase.date, hbase.tape, hbase.live, hbase.store⟩, ?_,
      fun _ => hs⟩
    simp only [hphase]
    exact ⟨⟨r', rfl, hnext, rfl, k + j, _, Replayer.advance_gives hstage hmore⟩, htick, hspeed⟩
  · rw [if_neg hdone]
    unfold Replayer.result
    cases hdiv : r'.divergedAt with
    | none =>
        refine replayed_good ?_ hnext (by simpa using hdone) hdiv hdet hs
        exact ⟨hbase.segments, hbase.date, hbase.tape, hbase.live, hbase.store⟩
    | some i =>
        refine incident_good ?_ ?_ ?_ i r'.state
        · exact ⟨hbase.segments, hbase.date, hbase.tape, hbase.live, hbase.store⟩
        · exact ⟨queued, hopen⟩
        · exact htick

/-- **A save is resumed.** -/
theorem restoreSave_good (htape : TapeOk A levels strict g.tape)
    (hlive : g.playback = false → g.liveTick = g.tape.liveTick)
    (hstore : StoreOk A levels strict g.store) {b : SaveBody} (hsave : SaveOk A levels strict b)
    (hs : g.playback = false → ∃ s, g.store.save = some s ∧ s.body.start = b.start ∧
      s.body.lived.rewinds = b.lived.rewinds) :
    (Game.restoreSave A levels b g).Always (Good A levels strict) := by
  obtain ⟨queued, hopen⟩ := hsave.opened
  have hkeys := hopen.keys
  unfold Game.restoreSave Game.restartFromHistory
  refine (drawing_spec _ _).bind fun x hx => always_done.mpr ?_
  obtain ⟨due, g₁⟩ := x
  have hbase := @Base.drawn A levels strict _ _ ?_ hx.1
  · obtain ⟨impure, chaos, source, rfl⟩ := hx.1.frame
    refine startReplay_good ?_ ⟨queued, ?_⟩ hsave.running hsave.tick ?_
    · exact ⟨hbase.segments, hbase.date, hbase.tape, hbase.live, hbase.store⟩
    · simp only
      rw [JsMap.ofPairs_eq_self hkeys]
      exact hopen
    · exact fun hp _ => hs hp
  · exact ⟨hsave.segments, hsave.date, htape, hlive, hstore⟩

/-! ## 6. Ticks -/

theorem Stored.congr {g' : Game} (h : Stored levels g) (hp : g'.playback = g.playback)
    (hs : g'.store.save = g.store.save) (hstart : g'.run.start = g.run.start)
    (hr : g'.run.lived.rewinds = g.run.lived.rewinds) : Stored levels g' := by
  unfold Stored
  rw [hp, hs, hstart, hr]
  exact h

theorem gameOver_good (hb : Base A levels strict g) (today reason : Str) :
    Good A levels strict (g.gameOver today reason) := by
  unfold Game.gameOver
  refine setPhase_good ?_ trivial fun h => by cases h
  dsimp only
  split
  · exact hb
  · have hclear := hb.store.clear
    split <;> split <;>
      exact ⟨hb.segments, hb.date, hb.tape, hb.live, hclear.save, hclear.handed, hclear.closed⟩

theorem takeInputs_base (hb : Base A levels strict g) : Base A levels strict g.takeInputs.2 := by
  unfold Game.takeInputs
  dsimp only
  split
  · rename_i hp
    refine ⟨hb.segments, hb.date, hb.tape, fun h => ?_, hb.store⟩
    exact absurd (hp.symm.trans h) (by decide)
  · rename_i hp
    have hlive := hb.live (by simpa using hp)
    refine ⟨hb.segments, hb.date, ?_, fun _ => rfl, hb.store⟩
    have ht := hb.tape
    have hnew : ∀ i ∈ g.pending.map fun k => (g.liveTick, k), i.1 = g.liveTick := by
      intro i hi
      obtain ⟨k, _, rfl⟩ := List.mem_map.mp hi
      rfl
    refine ⟨ht.date, ?_, ?_, ht.impure, ht.chaos, ht.restarts⟩
    · refine List.pairwise_append.mpr ⟨ht.ordered, ?_, fun i hi j hj => ?_⟩
      · exact List.pairwise_of_forall_mem_list fun i hi j hj => by rw [hnew i hi, hnew j hj]
      · rw [hnew j hj, hlive]
        exact (ht.played i hi).le
    · intro i hi
      rcases List.mem_append.mp hi with hi | hi
      · exact Nat.lt_succ_of_lt (by rw [hlive]; exact ht.played i hi)
      · rw [hnew i hi]
        exact Nat.lt_succ_self _

theorem answered_live {tr : List (Port × ℚ)} {u : List (Draw × ℚ)}
    (h : Answered Game.livePorts tr u) : u.map Prod.snd = tr.map Prod.snd := by
  induction h with
  | nil => rfl
  | @cons q r t u tr hq _ ih =>
      obtain rfl := gives_query.mp hq
      rw [List.map_append, ih]
      rfl

/-- The step of a tick, told values from outside. -/
theorem liveStep_spec (s : GameState) (kinds : List InputKind) (g : Game) :
    (Game.drawing (((step A levels s kinds).via Game.livePorts).logged) g).Always fun x =>
      Drawn g x.2 ∧ ∃ tr, (step A levels s kinds).Gives tr x.1.1 ∧ x.1.2 = tr.map Prod.snd := by
  refine (drawing_spec _ g).mono fun x hx => ?_
  obtain ⟨hd, t, ht⟩ := hx
  obtain ⟨hvia, hcalls⟩ := gives_logged.mp ht
  obtain ⟨tr, hstep, hans⟩ := gives_via.mp hvia
  exact ⟨hd, tr, hstep, by rw [hcalls, answered_live hans]⟩

theorem noteEvents_spec (state : GameState) (events : List OutcomeEvent) (run : Run) :
    (Game.noteEvents A levels state events run).Always fun run' => ∃ stats dueAt,
      run' = { run with history := run.history ++ events.map .outcome, stats, dueAt } := by
  have hnote : ∀ (run : Run) (e : OutcomeEvent), ∃ stats,
      Game.noteEvent run e = { run with history := run.history ++ [.outcome e], stats } := by
    intro run e
    unfold Game.noteEvent
    split <;> exact ⟨_, rfl⟩
  induction events generalizing run with
  | nil => exact always_done.mpr ⟨run.stats, run.dueAt, by rw [List.map_nil, List.append_nil]⟩
  | cons e events ih =>
      rw [Game.noteEvents]
      obtain ⟨stats, he⟩ := hnote run e
      rw [he]
      have hgo : ∀ dueAt, (Game.noteEvents A levels state events
          { run with history := run.history ++ [.outcome e], stats, dueAt }).Always fun run' =>
            ∃ stats dueAt, run' =
              { run with history := run.history ++ (e :: events).map .outcome, stats, dueAt } := by
        intro dueAt
        refine (ih _).mono fun run' h => ?_
        obtain ⟨stats', dueAt', rfl⟩ := h
        exact ⟨stats', dueAt', by simp⟩
      dsimp only
      split
      · exact hgo _
      · refine Always.bind (P := fun _ => True) (fun _ _ _ => trivial) fun dueAt _ => hgo dueAt

theorem montageOk_create {seg : MontageSegment} {segs : List MontageSegment}
    (h : ∀ s ∈ seg :: segs, SegmentOk A levels strict s) :
    MontageOk A levels strict (.create A levels seg segs) where
  paced := Nat.lt_of_lt_of_le (by decide) (Nat.le_max_left montageMinTicksPerFrame _)
  segments := h
  underWay := fun _ hs => ⟨0, by obtain rfl := Option.some.inj hs; rfl⟩

/-- **A frame of a montage**: the replayer goes on, or the next segment is opened. -/
theorem MontageOk.advance {m : Montage} (h : MontageOk A levels strict m) :
    MontageOk A levels strict (m.advance A levels) := by
  unfold Montage.advance
  split
  · exact h
  · dsimp only
    split
    · refine ⟨h.paced, h.segments, fun seg hseg => ?_⟩
      obtain ⟨k, hk⟩ := h.underWay seg hseg
      refine ⟨k + m.ticksPerFrame, ?_⟩
      rw [Replayer.advance_add, answer_bind, hk]
    · split
      · rename_i hnone
        exact ⟨h.paced, h.segments, fun seg hseg => by
          rw [hnone] at hseg
          cases hseg⟩
      · rename_i seg hsome
        refine ⟨h.paced, h.segments, fun seg' hseg' => ⟨0, ?_⟩⟩
        rw [hsome] at hseg'
        obtain rfl := Option.some.inj hseg'
        rfl

/-- **A level is done.** -/
theorem levelDone_good (hb : Base A levels strict g) (state : GameState)
    (hopen : ∃ queued, OpenAt A levels strict g.run.start g.run.history g.run.orbValues queued
      g.run.lived) (htick : g.run.lived.state.tick = state.tick) :
    (Game.levelDone A levels state g).Always (Good A levels strict) := by
  unfold Game.levelDone
  have hclose := @closeSegment_base A levels strict
    { g with run := { g.run with divergedAt := none } } ⟨hb.segments, hb.date, hb.tape, hb.live,
      hb.store⟩ state.tick hopen htick
  generalize ({ g with run := { g.run with divergedAt := none } } : Game).closeSegment levels
    state.tick = g₁ at hclose
  dsimp only
  have hsegs : ∀ seg ∈ (if (levels state.level).durable = true then g₁.run.segments else []),
      SegmentOk A levels strict seg := by
    split
    · exact hclose.segments
    · exact fun _ h => absurd h List.not_mem_nil
  generalize (if (levels state.level).durable = true then g₁.run.segments else []) = segments
    at hsegs
  refine (@beginSegment_good A levels strict _ ?_ _ _).bind fun g' h => ?_
  · exact ⟨fun _ h => absurd h List.not_mem_nil, hclose.date, hclose.tape, hclose.live,
      hclose.store⟩
  · obtain ⟨hg, ⟨run, due, hrun⟩, hphase⟩ := h
    cases segments with
    | nil => exact always_done.mpr hg
    | cons seg segs =>
        refine always_done.mpr (setPhase_good ?_ ?_ fun _ => ?_)
        · exact ⟨hg.base.segments, hg.base.date, hg.base.tape, hg.base.live, hg.base.store⟩
        · have hlive : LiveAt A levels strict g'.run := by
            rw [hrun]
            exact liveAt_begin run _ due
          refine ⟨⟨hlive.opened, hlive.state, hlive.running, hlive.buffer⟩, fun m hm => ?_⟩
          obtain rfl := Option.some.inj hm
          exact montageOk_create hsegs
        · refine (hg.stored ?_).congr rfl rfl rfl rfl
          rw [hphase]
          rfl

/-- **A rewind**, of a run that a hit has stopped. -/
theorem retry_good (hb : Base A levels strict g) {run : Run} (hl : LiveAt A levels strict run)
    {pressed : List PlayerInput}
    (hrun : g.run = { run with
      queued := [], history := run.history ++ pressed.map fun k =>
        .input ⟨run.state.tick, .input k⟩ })
    {tr : List (Port × ℚ)} {r : StepResult}
    (hstep : (step A levels run.state (run.queued.map inputOf ++ pressed.map .player)).Gives tr r)
    (hretry : r.state.status = .retry) :
    (Game.retry A levels r.state g).Always (Good A levels strict) := by
  have hs := hl.running
  have hbuf := hl.buffer
  rw [← hl.state] at hs hstep hbuf hrun
  obtain ⟨_, _, hspent⟩ := hl.opened.hit hs hstep hretry
  obtain ⟨target, htarget, hmem, hticks⟩ := retryTarget_spec hl.opened hbuf hs hstep hretry
    (show g.run.rewind = run.rewind by rw [hrun]) (by rw [hrun])
  obtain ⟨htick, htrun, _⟩ := hbuf.states target hmem
  unfold Game.retry
  rw [htarget]
  dsimp only
  unfold Game.rewindTo
  refine (drawing_spec _ _).bind fun x hx => always_done.mpr ?_
  obtain ⟨due, g₁⟩ := x
  have hbase := @Base.drawn A levels strict _ _ ?_ hx.1
  · obtain ⟨impure, chaos, source, rfl⟩ := hx.1.frame
    obtain ⟨hopen', hbuf'⟩ := hl.opened.rewind hbuf hspent hmem hticks pressed
      ((levels r.state.level).retries - target.retries + 1 : ℤ) r.state.failedAt
    refine setPhase_save_good ?_ ?_
    · exact ⟨hbase.segments, hbase.date, hbase.tape, hbase.live, hbase.store⟩
    · simp only [Run.recordInput, hrun, List.nil_append]
      exact ⟨hopen', rfl, htrun, hbuf'⟩
  · exact ⟨hb.segments, hb.date, hb.tape, hb.live, hb.store⟩

/-- A tick that needs no retry goes on, ends the level or ends the run. -/
theorem goOn_good (hb : Base A levels strict g) (hs : Stored levels g) (hphase : g.phase = .playing)
    {r : StepResult}
    (hopen : r.state.status = .running ∨ r.state.status = .levelDone →
      OpenAt A levels strict g.run.start g.run.history g.run.orbValues g.run.queued g.run.lived)
    (hlived : g.run.lived.state = r.state) (hstate : g.run.state = r.state)
    (hretry : r.state.status ≠ .retry)
    (hbuf : r.state.status = .running → BufferOk A levels strict g.run.start g.run.history
      g.run.orbValues r.state (g.run.rewind.push r.state)) (today : Str) :
    (Game.goOn A levels today r g).Always (Good A levels strict) := by
  unfold Game.goOn
  by_cases hfailed : r.state.status = .failed
  · rw [if_pos hfailed]
    exact always_done.mpr (gameOver_good hb _ _)
  rw [if_neg hfailed]
  by_cases hdone : r.state.status = .levelDone
  · rw [if_pos hdone]
    exact levelDone_good hb r.state ⟨_, hopen (.inr hdone)⟩ (by rw [hlived])
  rw [if_neg hdone]
  have hrun : r.state.status = .running := by
    cases hst : r.state.status <;> simp_all
  have hlive : LiveAt A levels strict { g.run with rewind := g.run.rewind.push r.state } :=
    ⟨hopen (.inl hrun), hlived.trans hstate.symm, by rw [hstate]; exact hrun, by
      simp only [hstate]
      exact hbuf hrun⟩
  have hb₁ : Base A levels strict
      { g with run := { g.run with rewind := g.run.rewind.push r.state } } :=
    ⟨hb.segments, hb.date, hb.tape, hb.live, hb.store⟩
  have hr₁ : RunAt A levels strict g.phase { g.run with rewind := g.run.rewind.push r.state } := by
    rw [hphase]
    exact hlive
  have hg₁ : Good A levels strict
      { g with run := { g.run with rewind := g.run.rewind.push r.state } } :=
    ⟨hb₁, hr₁, fun _ => hs⟩
  dsimp only
  split
  · split
    · exact hotfix_good hb₁ hlive
    · exact always_done.mpr hg₁
  · split
    · exact always_done.mpr (crash_good hb₁ hlive)
    · split
      · exact always_done.mpr hg₁
      · exact always_done.mpr (save_good hb₁ hr₁)

/-- **A tick of live play.** -/
theorem tick_good (hg : Good A levels strict g) (hphase : g.phase = .playing) (today : Str) :
    (Game.tick A levels today g).Always (Good A levels strict) := by
  have hs := hg.stored (by rw [hphase]; rfl)
  have hl : LiveAt A levels strict g.run := by
    have := hg.run
    rwa [hphase] at this
  have hb₁ := takeInputs_base hg.base
  obtain ⟨tape, liveTick, inputCursor, hg₁⟩ := takeInputs_frame g
  unfold Game.tick
  dsimp only
  generalize g.takeInputs.1 = pressed
  rw [hg₁] at hb₁ ⊢
  refine (liveStep_spec _ _ _).bind fun x hx => ?_
  obtain ⟨⟨r, calls⟩, g₂⟩ := x
  obtain ⟨hd, tr, hstep, hcalls⟩ := hx
  have hbase := @Base.drawn A levels strict _ _ ?_ hd
  · obtain ⟨impure, chaos, source, rfl⟩ := hd.frame
    simp only at hstep hcalls hbase ⊢
    unfold Game.afterStep
    by_cases hretry : r.state.status = .retry
    · rw [if_pos hretry]
      exact retry_good hbase hl rfl hstep hretry
    rw [if_neg hretry]
    dsimp only
    refine (drawing_spec _ _).bind fun y hy => ?_
    obtain ⟨run, g₃⟩ := y
    obtain ⟨hd₃, t, ht⟩ := hy
    obtain ⟨stats, dueAt, rfl⟩ := noteEvents_spec _ _ _ t run ht
    have hbase₃ := hbase.drawn hd₃
    obtain ⟨impure₃, chaos₃, source₃, rfl⟩ := hd₃.frame
    rw [← hl.state] at hstep ⊢
    have hrun := hl.running
    have hbuf := hl.buffer
    rw [← hl.state] at hrun hbuf
    subst hcalls
    refine goOn_good ?_ ?_ ?_ ?_ ?_ ?_ hretry ?_ today
    · exact ⟨hbase₃.segments, hbase₃.date, hbase₃.tape, hbase₃.live, hbase₃.store⟩
    · exact hs
    · exact hphase
    · exact fun hgo => hl.opened.tick hrun hstep hgo
    · rfl
    · rfl
    · exact fun hgo => hbuf.tick hl.opened hrun hstep hgo
  · exact ⟨hb₁.segments, hb₁.date, hb₁.tape, hb₁.live, hb₁.store⟩

/-! ## 7. What frames leave alone -/

/-- The values come from the tape. -/
def FromTape (g : Game) : Prop := ∃ i c e, g.source = .player i c e

/-- What the methods that play leave alone: they never stop a playback, and a playback writes
    neither to its tape nor to the store. -/
structure Kept (g g' : Game) : Prop where
  playback : g'.playback = g.playback
  savedRun : g'.savedRun = g.savedRun
  active : g.phase.idle = false → g'.phase.idle = false
  watched : g.playback = true → FromTape g → g'.tape = g.tape ∧ g'.store = g.store ∧ FromTape g'

theorem Kept.refl (g : Game) : Kept g g := ⟨rfl, rfl, id, fun _ h => ⟨rfl, rfl, h⟩⟩

theorem Kept.trans {g' g'' : Game} (h : Kept g g') (h' : Kept g' g'') : Kept g g'' := by
  refine ⟨h'.playback.trans h.playback, h'.savedRun.trans h.savedRun, h'.active ∘ h.active, ?_⟩
  intro hp hf
  obtain ⟨ht, hs, hf⟩ := h.watched hp hf
  obtain ⟨ht', hs', hf'⟩ := h'.watched (h.playback.trans hp) hf
  exact ⟨ht'.trans ht, hs'.trans hs, hf'⟩

theorem steady_kept : Steady Kept where
  refl := Kept.refl
  trans := Kept.trans
  draw := by
    intro q g
    unfold Game.draw
    cases q with
    | impure =>
        cases hs : g.source with
        | recorder =>
            refine always_ask.mpr fun v => always_done.mpr ⟨rfl, rfl, id, fun _ hf => ?_⟩
            obtain ⟨i, c, e, hf⟩ := hf
            rw [hs] at hf
            cases hf
        | player i c e =>
            simp only
            split <;> exact always_done.mpr ⟨rfl, rfl, id, fun _ _ => ⟨rfl, rfl, _, _, _, rfl⟩⟩
    | chaos =>
        cases hs : g.source with
        | recorder =>
            refine always_ask.mpr fun v => always_done.mpr ⟨rfl, rfl, id, fun _ hf => ?_⟩
            obtain ⟨i, c, e, hf⟩ := hf
            rw [hs] at hf
            cases hf
        | player i c e =>
            simp only
            split <;> exact always_done.mpr ⟨rfl, rfl, id, fun _ _ => ⟨rfl, rfl, _, _, _, rfl⟩⟩
  change := by
    intro g run phase pending dailyBest hphase
    refine ⟨rfl, rfl, fun hidle => ?_, fun _ hf => ⟨rfl, rfl, hf⟩⟩
    rcases hphase with rfl | hphase
    · exact hidle
    · exact Phase.busy.idle hphase
  file := fun g best dailyBest store hp =>
    ⟨rfl, rfl, id, fun h => absurd (hp.symm.trans h) (by decide)⟩

theorem kept_setPhase (g : Game) {phase : Phase} (h : phase.idle = false) :
    Kept g (g.setPhase phase) := by
  obtain ⟨pending, hg⟩ := setPhase_spec g phase
  rw [hg]
  exact ⟨rfl, rfl, fun _ => h, fun _ hf => ⟨rfl, rfl, hf⟩⟩

theorem kept_takeInputs (g : Game) : Kept g g.takeInputs.2 := by
  unfold Game.takeInputs
  dsimp only
  split
  · exact ⟨rfl, rfl, id, fun _ hf => ⟨rfl, rfl, hf⟩⟩
  · rename_i hp
    exact ⟨rfl, rfl, id, fun h => absurd h hp⟩

/-- **Playing leaves alone** what it has to. -/
theorem driven_kept : Driven Kept where
  toSteady := steady_kept
  inputs := kept_takeInputs
  restart := fun _ _ _ _ _ => ⟨rfl, rfl, id, fun _ _ => ⟨rfl, rfl, _, _, _, rfl⟩⟩

/-! ## 8. Frames -/

theorem confirm_good (hg : Good A levels strict g) :
    (Game.confirm A levels g).Always (Good A levels strict) := by
  obtain ⟨hb, hr, hs⟩ := id hg
  unfold Game.confirm
  generalize hph : g.phase = phase at hr hs
  cases phase with
  | tip level => exact always_done.mpr (setPhase_good hb hr fun _ => hs rfl)
  | lost =>
      refine (beginSegment_good ?_ _ _).mono fun g' h => h.1
      exact ⟨hb.segments, hb.date, hb.tape, hb.live, hb.store⟩
  | title => exact always_done.mpr hg
  | resume tick => exact always_done.mpr hg
  | playing => exact always_done.mpr hg
  | paused => exact always_done.mpr hg
  | crashing n => exact always_done.mpr hg
  | replaying => exact always_done.mpr hg
  | rewinding frames index attempt of => exact always_done.mpr hg
  | montage n => exact always_done.mpr hg
  | over_ reason => exact always_done.mpr hg

/-- A playback resumes the saves of its tape. -/
theorem autoplay_good (hg : Good A levels strict g) (hp : g.playback = true) :
    (Game.autoplay A levels g).Always (Good A levels strict) := by
  unfold Game.autoplay
  have hconfirm : (Game.confirm A levels g).Always fun g' =>
      Good A levels strict g' ∧ Kept g g' := fun tr g' h =>
    ⟨confirm_good hg tr g' h, steady_kept.confirm A levels g tr g' h⟩
  refine hconfirm.bind fun g' h => ?_
  obtain ⟨hg', hk⟩ := h
  split
  · exact always_done.mpr hg'
  · exact always_done.mpr hg'
  · exact always_done.mpr hg'
  · exact always_done.mpr hg'
  · rename_i r _ _ _ hdue _ _ _
    have hmem : r ∈ g'.tape.restarts := by
      unfold Game.restartDue at hdue
      split at hdue
      · exact List.mem_of_getElem? (Option.filter_eq_some_iff.mp hdue).1
      · cases hdue
    have hb := hg'.base
    refine restoreSave_good ?_ ?_ ?_ (hb.tape.restarts r hmem) fun h => ?_
    · exact hb.tape
    · exact hb.live
    · exact hb.store
    · have := hk.playback.trans hp
      exact absurd (this.symm.trans h) (by decide)

theorem ticks_good (today : Str) (n : ℕ) (hg : Good A levels strict g) :
    (Game.ticks A levels today n g).Always (Good A levels strict) := by
  induction n generalizing g with
  | zero => exact always_done.mpr hg
  | succ n ih =>
      unfold Game.ticks
      split
      · rename_i hphase _
        exact (tick_good hg hphase today).bind fun g' hg' => ih hg'
      · exact always_done.mpr hg

theorem frameBody_good (today : Str) (n : ℕ) (hg : Good A levels strict g)
    (hdet : strict → g.phase = .replaying → Determined A levels g.run.start g.run.history) :
    (Game.frameBody A levels today n g).Always (Good A levels strict) := by
  obtain ⟨hb, hr, hs⟩ := id hg
  unfold Game.frameBody
  generalize hph : g.phase = phase at hr hs hdet
  cases phase with
  | playing => exact ticks_good today n hg
  | crashing k =>
      dsimp only
      split
      · exact always_done.mpr ⟨⟨hb.segments, hb.date, hb.tape, hb.live, hb.store⟩, hr, fun _ => hs rfl⟩
      · obtain ⟨hl, htick⟩ := hr
        refine always_done.mpr (startReplay_good hb ⟨_, hl.opened⟩ ?_ ?_ (hs rfl))
        · rw [hl.state]
          exact hl.running
        · rw [hl.state, htick]
  | replaying => exact advanceReplay_good hg hph fun hstrict => hdet hstrict rfl
  | rewinding frames index attempt of =>
      dsimp only
      split
      · exact always_done.mpr ⟨⟨hb.segments, hb.date, hb.tape, hb.live, hb.store⟩, hr, fun _ => hs rfl⟩
      · exact always_done.mpr (setPhase_good hb hr fun _ => hs rfl)
  | montage k =>
      obtain ⟨hl, hsegs⟩ := hr
      dsimp only
      split
      · refine always_done.mpr (setPhase_good ?_ ?_ fun _ => ?_)
        · exact ⟨hb.segments, hb.date, hb.tape, hb.live, hb.store⟩
        · exact ⟨hl.opened, hl.state, hl.running, hl.buffer⟩
        · exact hs rfl
      · refine always_done.mpr ⟨⟨hb.segments, hb.date, hb.tape, hb.live, hb.store⟩, ?_, fun _ => hs rfl⟩
        refine ⟨⟨hl.opened, hl.state, hl.running, hl.buffer⟩, fun m hm => ?_⟩
        obtain ⟨m₀, hm₀, rfl⟩ := Option.map_eq_some_iff.mp hm
        exact (hsegs m₀ hm₀).advance
  | title => exact always_done.mpr hg
  | resume tick => exact always_done.mpr hg
  | tip level => exact always_done.mpr hg
  | paused => exact always_done.mpr hg
  | lost => exact always_done.mpr hg
  | over_ reason => exact always_done.mpr hg

theorem endFrame_good (today : Str) (hg : Good A levels strict g) :
    Good A levels strict (g.endFrame today) := by
  unfold Game.endFrame
  split
  · exact hg
  · split
    · exact gameOver_good hg.base _ _
    · exact hg

theorem frameStep_good (today : Str) (n : ℕ) (hg : Good A levels strict g)
    (hdet : strict → g.playback = false ∧
      (g.phase = .replaying → Determined A levels g.run.start g.run.history)) :
    (Game.frameStep A levels today n g).Always (Good A levels strict) := by
  unfold Game.frameStep
  by_cases hp : g.playback = true
  · rw [if_pos hp]
    have hloose : ¬strict := fun h => by
      have := (hdet h).1
      rw [hp] at this
      cases this
    refine (autoplay_good hg hp).bind fun g' hg' => ?_
    exact (frameBody_good today n hg' fun h => absurd h hloose).bind fun g'' hg'' =>
      always_done.mpr (endFrame_good today hg'')
  · rw [if_neg hp]
    exact (frameBody_good today n hg fun h => (hdet h).2).bind fun g'' hg'' =>
      always_done.mpr (endFrame_good today hg'')

/-- **A frame.** -/
theorem frame_good (today : Str) (n : ℕ) (hg : Good A levels strict g)
    (hdet : strict → g.playback = false ∧
      (g.phase = .replaying → Determined A levels g.run.start g.run.history)) :
    (Game.frame A levels today n g).Always (Good A levels strict) := by
  unfold Game.frame
  by_cases hp : g.playback = true
  · have hloose : ¬strict := fun h => by
      have := (hdet h).1
      rw [hp] at this
      cases this
    generalize (if g.playback = true then g.speed else 1) = steps
    clear hdet hp
    induction steps generalizing g with
    | zero => exact always_done.mpr hg
    | succ k ih =>
        exact (frameStep_good today n hg fun h => absurd h hloose).bind fun g' hg' => ih hg'
  · rw [if_neg hp]
    exact (frameStep_good today n hg hdet).bind fun g' hg' => always_done.mpr hg'

end DevDashboard.Web.Replay
