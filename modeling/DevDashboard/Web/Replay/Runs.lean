/-
  File:      DevDashboard/Web/Replay/Runs.lean
  Subject:   RUNS OF THE REPLAY GAME, AND THEIR INVARIANT.

  A run is any sequence of calls from outside (`Action`): commands, frames, the page going to the
  background, tapes to watch, and the page being closed and opened again over the same store. Each
  call is told whatever values the outside world comes up with.

  A tape may come from anywhere. What holds of a game that plays one depends on the tape; but
  playing it changes nothing of what a later run starts from.

  * `Inv.step` -- one call keeps the invariant;
  * `inv_of_run` -- **every run** keeps it; in a strict account, as long as every history that is
    replayed fixes its states.
-/
import DevDashboard.Lib.Machine
import DevDashboard.Web.Replay.Invariant

namespace DevDashboard.Web.Replay

open Lib Asking

/-- A date as `today` gives it. -/
abbrev Day := { s : Str // isDateText s = true }

/-- The calls from outside. -/
inductive Action where
  | command (today : Day) (c : Command)
  | frame (today : Day) (liveTicks : ℕ)
  | setPlaybackSpeed (speed : ℕ)
  | suspend
  | watch (tape : Tape)
  /-- The page is closed, and opened again. -/
  | reopen (today : Day)

section

variable (A : Arith) (levels : LevelTable)

/-- What a call does. -/
def Action.call (g : Game) : Action → Asking Draw ℚ Game
  | .command today c => g.command A levels today.val c
  | .frame today n => g.frame A levels today.val n
  | .setPlaybackSpeed speed => .done (g.setPlaybackSpeed speed)
  | .suspend => .done (g.suspend levels)
  | .watch tape => g.watch A levels tape
  | .reopen today => .done (.create A levels today.val g.store)

/-- One call, told some values. -/
def Called (g : Game) (a : Action) (g' : Game) : Prop := ∃ tr, (a.call A levels g).Gives tr g'

/-- A store without a run. -/
def Store.new (best : ℕ) (daily : Option (Str × ℕ)) : Store := ⟨none, [], [], best, daily⟩

/-- The runs of a game, from a store without a saved run. -/
def Runs (today : Day) (best : ℕ) (daily : Option (Str × ℕ)) :
    List (Game × Action) → Game → Prop :=
  Trace (Called A levels) (.create A levels today.val (.new best daily))

end

variable (A : Arith) (levels : LevelTable) (strict : Prop)

/-! ## 1. The invariant of runs -/

/-- A game that is not playing back, or plays back a tape as a recorder writes it. -/
def Trusted (g : Game) : Prop := g.playback = true → ¬strict ∧ TapeOk A levels strict g.tape

/-- **The invariant of runs.** -/
structure Inv (g : Game) : Prop where
  store : StoreOk A levels strict g.store
  saved : ∀ t, g.phase = .resume t → ∀ s, g.savedRun = some s →
    SaveOk A levels strict s.body ∧ TapeOk A levels strict s.tape ∧ g.store.save = some s
  idle : g.phase.idle = true → g.playback = false
  watching : g.playback = true → FromTape g
  good : g.phase.idle = false → Trusted A levels strict g → Good A levels strict g

variable {A levels strict} {g g' : Game}

theorem Inv.of_good (hg : Good A levels strict g) (hidle : g.phase.idle = false)
    (hw : g.playback = true → FromTape g) : Inv A levels strict g where
  store := hg.base.store
  saved := by
    intro t ht
    rw [ht] at hidle
    cases hidle
  idle := by
    intro h
    rw [hidle] at h
    cases h
  watching := hw
  good := fun _ _ => hg

/-- Methods that keep what playing leaves alone need to be looked at in good games only. -/
theorem Inv.of_kept (hi : Inv A levels strict g) (hk : Kept g g') (hactive : g.phase.idle = false)
    (hgood : Trusted A levels strict g → Good A levels strict g → Good A levels strict g') :
    Inv A levels strict g' := by
  have hactive' := hk.active hactive
  have htrust : Trusted A levels strict g' → Trusted A levels strict g := by
    intro h hp
    obtain ⟨ht, _, _⟩ := hk.watched hp (hi.watching hp)
    rw [← ht]
    exact h (hk.playback.trans hp)
  refine ⟨?_, ?_, ?_, fun hp => ?_, fun _ h => ?_⟩
  · by_cases h : Trusted A levels strict g
    · exact (hgood h (hi.good hactive h)).base.store
    · have hp : g.playback = true := by
        by_contra hp
        exact h fun h => absurd h hp
      rw [(hk.watched hp (hi.watching hp)).2.1]
      exact hi.store
  · intro t ht
    rw [ht] at hactive'
    cases hactive'
  · intro h
    rw [hactive'] at h
    cases h
  · have hp' := hk.playback.symm.trans hp
    exact (hk.watched hp' (hi.watching hp')).2.2
  · exact hgood (htrust h) (hi.good hactive (htrust h))

/-- **A page is opened.** -/
theorem inv_create (today : Day) {store : Store} (hs : StoreOk A levels strict store) :
    Inv A levels strict (.create A levels today.val store) := by
  have hphase : (Game.create A levels today.val store).phase.idle = true := by
    unfold Game.create
    dsimp only
    split <;> rfl
  refine ⟨hs, ?_, fun _ => rfl, fun h => ?_, fun h => ?_⟩
  · intro t _ s hsave
    obtain ⟨hbody, htape⟩ := hs.save s hsave
    exact ⟨hbody, htape, hsave⟩
  · cases h
  · rw [hphase] at h
    cases h

/-! ## 2. Calls -/

/-- Nothing to play, nothing to do. -/
theorem frame_idle {today : Str} {n : ℕ} (hidle : g.phase.idle = true) (hp : g.playback = false)
    {tr : List (Draw × ℚ)} (h : (g.frame A levels today n).Gives tr g') : g' = g := by
  have hbody : Game.frameBody A levels today n g = .done g := by
    unfold Game.frameBody
    generalize hph : g.phase = phase at hidle
    cases phase <;> first | rfl | cases hidle
  have hend : g.endFrame today = g := by
    unfold Game.endFrame
    rw [hp]
    split <;> rfl
  unfold Game.frame at h
  rw [if_neg (by rw [hp]; decide)] at h
  unfold Game.frameSteps Game.frameSteps Game.frameStep at h
  rw [if_neg (by rw [hp]; decide)] at h
  simp only [done_bind, hbody, hend] at h
  exact (gives_done.mp h).2

/-- A frame of live play is its body. -/
theorem frame_live {P : Game → Prop} (hp : g.playback = false) (today : Str) (n : ℕ)
    (h : (Game.frameBody A levels today n g).Always P) :
    (Game.frame A levels today n g).Always P := by
  have hbody : (Game.frameBody A levels today n g).Always fun g' => P g' ∧ Kept g g' :=
    fun tr g' hg' => ⟨h tr g' hg', driven_kept.frameBody A levels today n g tr g' hg'⟩
  unfold Game.frame
  rw [hp, if_neg (by decide), Game.frameSteps, Game.frameStep, hp, if_neg (by decide), done_bind]
  refine Always.bind (P := P) ?_ fun g' hg' => always_done.mpr hg'
  refine Always.bind hbody fun g' hg' => always_done.mpr ?_
  have hend : g'.endFrame today = g' := by
    unfold Game.endFrame
    rw [hg'.2.playback, hp]
    split <;> simp
  rw [hend]
  exact hg'.1

theorem suspend_good (hg : Good A levels strict g) : Good A levels strict (g.suspend levels) := by
  unfold Game.suspend
  split
  · rename_i hphase
    refine setPhase_save_good hg.base ?_
    have := hg.run
    rwa [hphase] at this
  · exact save_good hg.base hg.run

theorem kept_suspend (g : Game) : Kept g (g.suspend levels) := by
  unfold Game.suspend
  split
  · exact (kept_setPhase g rfl).trans (steady_kept.save levels _)
  · exact steady_kept.save levels g

theorem suspend_idle (hidle : g.phase.idle = true) : g.suspend levels = g := by
  have hsave : g.save levels = g := by
    have hnone : g.saveTick = none := by
      unfold Game.saveTick
      generalize g.phase = phase at hidle
      cases phase <;> first | rfl | cases hidle
    unfold Game.save
    rw [hnone]
    split <;> rfl
  unfold Game.suspend
  split
  · rename_i hphase
    rw [hphase] at hidle
    cases hidle
  · exact hsave

theorem beginSegment_phase (start : StartInput) (showTip : Bool) (g : Game) :
    (Game.beginSegment A levels start showTip g).Always fun g' => g'.phase.idle = false := by
  intro tr g' h
  obtain ⟨t, u, x, rfl, _, hx⟩ := gives_bind.mp h
  obtain ⟨rfl, rfl⟩ := gives_done.mp hx
  rw [save_phase, setPhase_phase]
  split <;> rfl

/-- **A run begins.** -/
theorem startRun_good (htape : TapeOk A levels strict g.tape)
    (hdate : isDateText g.run.runDate = true) (hstore : StoreOk A levels strict g.store)
    (hlive : g.playback = false → g.tape.liveTick = 0) :
    (Game.startRun A levels g).Always (Good A levels strict) := by
  unfold Game.startRun
  refine (beginSegment_good ?_ _ _).mono fun g' h => h.1
  exact ⟨fun _ h => absurd h List.not_mem_nil, hdate, htape, fun hp => (hlive hp).symm, hstore⟩

theorem tapeOk_empty (today : Day) : TapeOk A levels strict (emptyTape today.val) :=
  ⟨today.property, .nil, fun _ h => absurd h List.not_mem_nil, fun _ h => absurd h List.not_mem_nil,
    fun _ h => absurd h List.not_mem_nil, fun _ h => absurd h List.not_mem_nil⟩

theorem newRun_inv (hs : StoreOk A levels strict g.store) (today : Day) :
    (Game.newRun A levels today.val g).Always (Inv A levels strict) := by
  unfold Game.newRun
  have hgood := @startRun_good A levels strict
    { g.leavePlayback today.val with
      tape := emptyTape today.val, source := .recorder
      store := (g.leavePlayback today.val).store.clear }
    (tapeOk_empty today) today.property hs.clear fun _ => rfl
  intro tr g' h
  have hk := steady_kept.beginSegment A levels _ _ _ tr g' h
  refine .of_good (hgood tr g' h) (beginSegment_phase _ _ _ tr g' h) fun hp => ?_
  rw [hk.playback] at hp
  cases hp

theorem watch_inv (hi : Inv A levels strict g) (tape : Tape) :
    (Game.watch A levels tape g).Always (Inv A levels strict) := by
  unfold Game.watch
  split
  · rename_i htape
    intro tr g' h
    have hidle : g'.phase.idle = false := beginSegment_phase _ _ _ tr g' h
    have hk := steady_kept.beginSegment A levels _ _ _ tr g' h
    obtain ⟨ht, hs, hf⟩ := hk.watched rfl ⟨_, _, _, rfl⟩
    have hp : g'.playback = true := hk.playback
    refine ⟨?_, ?_, ?_, fun _ => hf, fun _ htrust => ?_⟩
    · rw [hs]
      exact hi.store
    · intro t ht
      rw [ht] at hidle
      cases hidle
    · intro h
      rw [hidle] at h
      cases h
    · have htape := (htrust hp).2
      rw [ht] at htape
      refine startRun_good ?_ ?_ ?_ ?_ tr g' h
      · exact htape
      · exact htape.date
      · exact hi.store
      · exact fun h => by cases h
  · exact always_done.mpr hi

theorem restoreSave_phase (b : SaveBody) (g : Game) :
    (Game.restoreSave A levels b g).Always fun g' => g'.phase.idle = false := by
  intro tr g' h
  obtain ⟨t, u, x, rfl, _, hx⟩ := gives_bind.mp h
  obtain ⟨rfl, rfl⟩ := gives_done.mp hx
  unfold Game.startReplay
  dsimp only
  split
  · rw [setPhase_phase]
    rfl
  · rw [setPhase_phase]
    rfl

/-- **A saved run is resumed**, and its tape notes it. -/
theorem resumeSaved_inv (hs : StoreOk A levels strict g.store) (hp : g.playback = false) {s : Save}
    (hbody : SaveOk A levels strict s.body) (htape : TapeOk A levels strict s.tape)
    (hstored : g.store.save = some s) :
    (Game.resumeSaved A levels s g).Always (Inv A levels strict) := by
  unfold Game.resumeSaved
  intro tr g' h
  have hk := steady_kept.restoreSave A levels _ _ tr g' h
  refine .of_good ?_ (restoreSave_phase _ _ tr g' h) fun hp' => ?_
  · refine restoreSave_good ?_ ?_ ?_ hbody ?_ tr g' h
    · refine ⟨htape.date, htape.ordered, htape.played, htape.impure, htape.chaos, fun r hr => ?_⟩
      rcases List.mem_append.mp hr with hr | hr
      · exact htape.restarts r hr
      · rw [List.mem_singleton.mp hr]
        exact hbody
    · exact fun _ => rfl
    · exact hs
    · exact fun _ => ⟨s, hstored, rfl, rfl⟩
  · rw [hk.playback] at hp'
    rw [hp] at hp'
    cases hp'

theorem kept_unpaused (g : Game) {phase : Phase} (h : phase.idle = false) (run : Run)
    (pending : List PlayerInput) : Kept g (({ g with run, pending } : Game).setPhase phase) :=
  (steady_kept.run g run pending g.dailyBest).trans (kept_setPhase _ h)

/-- **A command in live play.** -/
theorem act_inv (hi : Inv A levels strict g) (today : Day) (c : Command) :
    (Game.act A levels today.val c g).Always (Inv A levels strict) := by
  have hstay : (Asking.done g : Asking Draw ℚ Game).Always (Inv A levels strict) :=
    always_done.mpr hi
  have hpause : g.phase = .playing → (Asking.done ((g.setPhase .paused).save levels) :
      Asking Draw ℚ Game).Always (Inv A levels strict) := by
    intro hphase
    refine always_done.mpr (hi.of_kept ((kept_setPhase g rfl).trans (steady_kept.save levels _))
      (by rw [hphase]; rfl) fun _ hg => setPhase_save_good hg.base ?_)
    have := hg.run
    rwa [hphase] at this
  have hunpause : g.phase = .paused → (Asking.done (g.setPhase .playing) :
      Asking Draw ℚ Game).Always (Inv A levels strict) := by
    intro hphase
    refine always_done.mpr (hi.of_kept (steady_kept.setPhase g rfl) (by rw [hphase]; rfl) fun _ hg => ?_)
    obtain ⟨hb, hr, hs⟩ := hg
    rw [hphase] at hr hs
    exact setPhase_good hb hr fun _ => hs rfl
  unfold Game.act
  split
  · exact newRun_inv hi.store today
  · exact newRun_inv hi.store today
  · rename_i tick hphase
    split
    · rename_i s hsaved
      obtain ⟨hbody, htape, hstored⟩ := hi.saved tick hphase s hsaved
      exact resumeSaved_inv hi.store (hi.idle (by rw [hphase]; rfl)) hbody htape hstored
    · exact hstay
  · rename_i tick hphase
    have hp := hi.idle (by rw [hphase]; rfl)
    refine always_done.mpr ⟨hi.store.clear, ?_, fun _ => hp, ?_, ?_⟩
    · intro t ht
      cases ht
    · exact fun h => absurd (hp.symm.trans h) (by decide)
    · intro h
      cases h
  · rename_i level hphase
    intro tr g' h
    refine hi.of_kept (steady_kept.confirm A levels g tr g' h) (by rw [hphase]; rfl) fun _ hg => ?_
    exact confirm_good hg tr g' h
  · rename_i hphase
    intro tr g' h
    refine hi.of_kept (steady_kept.confirm A levels g tr g' h) (by rw [hphase]; rfl) fun _ hg => ?_
    exact confirm_good hg tr g' h
  · rename_i n hphase
    refine always_done.mpr (hi.of_kept (kept_unpaused g rfl _ g.pending) (by rw [hphase]; rfl) ?_)
    intro _ hg
    obtain ⟨hb, hr, hs⟩ := hg
    rw [hphase] at hr hs
    refine setPhase_good ?_ ?_ fun _ => ?_
    · exact ⟨hb.segments, hb.date, hb.tape, hb.live, hb.store⟩
    · exact ⟨hr.1.opened, hr.1.state, hr.1.running, hr.1.buffer⟩
    · exact hs rfl
  · exact hpause ‹_›
  · exact hpause ‹_›
  · rename_i kind hphase
    refine always_done.mpr (hi.of_kept (steady_kept.run g g.run _ g.dailyBest) (by rw [hphase]; rfl) ?_)
    intro _ hg
    obtain ⟨hb, hr, hs⟩ := hg
    exact ⟨⟨hb.segments, hb.date, hb.tape, hb.live, hb.store⟩, hr, hs⟩
  · exact hunpause ‹_›
  · exact hunpause ‹_›
  · exact hunpause ‹_›
  · exact hstay

theorem Inv.holdSlide (hi : Inv A levels strict g) (c : Command) :
    Inv A levels strict (g.holdSlide c) := by
  have hheld : ∀ slideHeld, Inv A levels strict { g with slideHeld } := fun slideHeld =>
    ⟨hi.store, hi.saved, hi.idle, hi.watching, fun hidle ht =>
      have hg := hi.good hidle ht
      ⟨⟨hg.base.segments, hg.base.date, hg.base.tape, hg.base.live, hg.base.store⟩, hg.run, hg.stored⟩⟩
  unfold Game.holdSlide
  split
  · exact hheld true
  · exact hheld false
  · exact hi

/-- **A command.** -/
theorem command_inv (hi : Inv A levels strict g) (today : Day) (c : Command) :
    (Game.command A levels today.val c g).Always (Inv A levels strict) := by
  unfold Game.command
  replace hi := hi.holdSlide c
  generalize g.holdSlide c = g at hi
  have hact := act_inv hi today c
  have hstay : (Asking.done g : Asking Draw ℚ Game).Always (Inv A levels strict) :=
    always_done.mpr hi
  dsimp only
  split
  · split
    · exact newRun_inv hi.store today
    · exact hact
    · refine always_done.mpr ⟨hi.store, ?_, fun _ => rfl, ?_, ?_⟩
      · intro t ht
        cases ht
      · intro h
        cases h
      · intro h
        cases h
    · exact hact
    · exact hact
    · exact hstay
  · exact hact

/-- **One call keeps the invariant**; in a strict account, where a history that is being replayed
    fixes its states. -/
theorem Inv.step (hi : Inv A levels strict g) {a : Action}
    (hdet : strict → g.playback = false → g.phase = .replaying →
      Determined A levels g.run.start g.run.history)
    (h : Called A levels g a g') : Inv A levels strict g' := by
  obtain ⟨tr, h⟩ := h
  cases a with
  | command today c => exact command_inv hi today c tr g' h
  | frame today n =>
      cases hidle : g.phase.idle with
      | true =>
          rw [frame_idle hidle (hi.idle hidle) h]
          exact hi
      | false =>
          refine hi.of_kept (driven_kept.frame A levels today.val n g tr g' h) hidle fun ht hg => ?_
          refine frame_good today.val n hg (fun hstrict => ?_) tr g' h
          have hp : g.playback = false := by
            by_contra hp
            exact (ht (by simpa using hp)).1 hstrict
          exact ⟨hp, hdet hstrict hp⟩
  | setPlaybackSpeed speed =>
      obtain ⟨rfl, rfl⟩ := gives_done.mp h
      unfold Game.setPlaybackSpeed
      split
      · refine ⟨hi.store, hi.saved, hi.idle, hi.watching, fun hidle ht => ?_⟩
        have hg := hi.good hidle ht
        exact ⟨⟨hg.base.segments, hg.base.date, hg.base.tape, hg.base.live, hg.base.store⟩, hg.run,
          hg.stored⟩
      · exact hi
  | suspend =>
      obtain ⟨rfl, rfl⟩ := gives_done.mp h
      cases hidle : g.phase.idle with
      | true =>
          rw [suspend_idle hidle]
          exact hi
      | false => exact hi.of_kept (kept_suspend g) hidle fun _ hg => suspend_good hg
  | watch tape => exact watch_inv hi tape tr g' h
  | reopen today =>
      obtain ⟨rfl, rfl⟩ := gives_done.mp h
      exact inv_create today hi.store

theorem storeOk_new (best : ℕ) (daily : Option (Str × ℕ)) :
    StoreOk A levels strict (.new best daily) where
  save := fun _ h => nomatch h
  handed := fun _ h => absurd h List.not_mem_nil
  closed := fun _ h => absurd h List.not_mem_nil

/-- **Every run keeps the invariant**; in a strict account, as long as every history that live play
    replays fixes its states. -/
theorem inv_of_run {today : Day} {best : ℕ} {daily : Option (Str × ℕ)} {l : List (Game × Action)}
    (h : Runs A levels today best daily l g)
    (hdet : strict → ∀ p ∈ l, p.1.playback = false → p.1.phase = .replaying →
      Determined A levels p.1.run.start p.1.run.history) : Inv A levels strict g := by
  have hall : ∀ p ∈ l, strict → p.1.playback = false → p.1.phase = .replaying →
      Determined A levels p.1.run.start p.1.run.history := fun p hp hstrict => hdet hstrict p hp
  refine Trace.inv_of (C := fun g _ => strict → g.playback = false → g.phase = .replaying →
    Determined A levels g.run.start g.run.history) ?_ ?_ h hall
  · exact inv_create today (storeOk_new best daily)
  · exact fun g a g' hi hC hstep => hi.step hC hstep

/-! ## 4. Runs that are told one value -/

/-- A call that is told `v` whenever it asks. -/
def Game.told (A : Arith) (levels : LevelTable) (v : ℚ) (g : Game) (a : Action) : Game :=
  ((a.call A levels g).answer (fun (s : Unit) _ => (v, s)) ()).1

theorem called_told (v : ℚ) (g : Game) (a : Action) :
    Called A levels g a (g.told A levels v a) := by
  obtain ⟨tr, htr⟩ := answer_gives (fun (s : Unit) (_ : Draw) => (v, s)) (a.call A levels g) ()
  exact ⟨tr, htr⟩

/-- The calls of such a run, and where it ends. -/
theorem trace_told (v : ℚ) (g : Game) (as : List Action) :
    Trace (Called A levels) g (visited (Game.told A levels v) g as)
      (as.foldl (Game.told A levels v) g) := by
  refine (Trace.of_visited _ g as).mono fun s a s' hs => ?_
  rw [hs]
  exact called_told v s a

def newYear : Day := ⟨"2026-01-01".toList, by decide⟩

/-- Levels in which a rack comes up after three ticks, and hits in the fourth. -/
def racksOnly (length crashAt : Option ℚ) : LevelTable := fun _ =>
  { durableLevel length 200 0 200 [(.low, 1)] with
    chaosMeanTicks := none, scriptedCrashAt := crashAt }

/-- A new run, with its first card confirmed. -/
def rackCalls (as : List Action) : List Action :=
  .command newYear .confirm :: .command newYear .confirm :: as

/-- Where the calls of a new run lead. -/
def rackGame (length crashAt : Option ℚ) (as : List Action) : Game :=
  (rackCalls as).foldl (Game.told (.exact 4) (racksOnly length crashAt) 0)
    (.create (.exact 4) (racksOnly length crashAt) newYear.val (.new 0 none))

theorem runs_rackGame (length crashAt : Option ℚ) (as : List Action) :
    ∃ l, Runs (.exact 4) (racksOnly length crashAt) newYear 0 none l (rackGame length crashAt as) :=
  ⟨_, trace_told 0 _ _⟩

/-- The run up to its fourth tick, and through the hit in it. -/
def beforeHit : Game :=
  rackGame none none [.command newYear (.input .slideStart), .frame newYear 3]

def afterHit : Game :=
  rackGame none none [.command newYear (.input .slideStart), .frame newYear 4]

/-- A run whose process dies in its second tick. -/
def afterCrash : Game :=
  rackGame none (some 2) [.command newYear (.input .slideStart), .frame newYear 4]

end DevDashboard.Web.Replay
