/-
  File:      DevDashboard/Web/Replay/Steady.lean
  Subject:   RELATIONS THAT EVERY METHOD OF A GAME KEEPS (runtime/game.ts).

  What a method leaves alone is a relation between the game before it and the game after it. If it
  is reflexive and transitive and allows for the few things the methods are made of (a value from
  the source, a change of the run or of the phase, a change of the store in live play), it holds
  across every method that takes no inputs (`Steady`), and if it allows for inputs and recorded
  resumes, across frames (`Driven`).
-/
import DevDashboard.Web.Replay.Game

namespace DevDashboard.Web.Replay

open Lib Asking

variable {g : Game}

/-! ## 1. Phases and saves -/

/-- A phase is entered with what it needs. -/
theorem setPhase_spec (g : Game) (phase : Phase) :
    ∃ pending, g.setPhase phase = { g with phase, pending } := by
  unfold Game.setPhase
  split
  · exact ⟨_, rfl⟩
  · exact ⟨_, rfl⟩

@[simp] theorem setPhase_run (phase : Phase) : (g.setPhase phase).run = g.run := by
  obtain ⟨pending, h⟩ := setPhase_spec g phase
  rw [h]

@[simp] theorem setPhase_phase (phase : Phase) : (g.setPhase phase).phase = phase := by
  obtain ⟨pending, h⟩ := setPhase_spec g phase
  rw [h]

theorem save_spec (levels : LevelTable) (g : Game) :
    ∃ store, g.save levels = { g with store } := by
  unfold Game.save
  split
  · exact ⟨_, rfl⟩
  · split
    · exact ⟨_, rfl⟩
    · split
      · exact ⟨_, rfl⟩
      · exact ⟨_, rfl⟩

@[simp] theorem save_run {levels : LevelTable} : (g.save levels).run = g.run := by
  obtain ⟨store, h⟩ := save_spec levels g
  rw [h]

@[simp] theorem save_phase {levels : LevelTable} : (g.save levels).phase = g.phase := by
  obtain ⟨store, h⟩ := save_spec levels g
  rw [h]

/-- What taking the inputs of a tick changes. -/
theorem takeInputs_frame (g : Game) : ∃ tape liveTick inputCursor,
    g.takeInputs.2 = { g with tape, liveTick, inputCursor, pending := [] } := by
  unfold Game.takeInputs
  dsimp only
  split <;> exact ⟨_, _, _, rfl⟩

/-- Nothing is being played. -/
def Phase.idle : Phase → Bool
  | .title | .resume _ => true
  | _ => false

/-- What play goes on with by itself. -/
def Phase.busy : Phase → Bool
  | .title | .resume _ | .paused => false
  | _ => true

theorem Phase.busy.idle {phase : Phase} (h : phase.busy = true) : phase.idle = false := by
  cases phase <;> first | rfl | cases h

/-! ## 2. Steady relations -/

/-- A relation that what methods are made of keeps. -/
structure Steady (R : Game → Game → Prop) : Prop where
  refl : ∀ g, R g g
  trans : ∀ {g g' g''}, R g g' → R g' g'' → R g g''
  draw : ∀ (q : Draw) (g : Game), (g.draw q).Always fun x => R g x.2
  change : ∀ (g : Game) (run : Run) (phase : Phase) (pending : List PlayerInput) (dailyBest : ℕ),
    phase = g.phase ∨ phase.busy = true → R g { g with run, phase, pending, dailyBest }
  file : ∀ (g : Game) (best dailyBest : ℕ) (store : Store), g.playback = false →
    R g { g with best, dailyBest, store }

namespace Steady

variable {R : Game → Game → Prop} (h : Steady R) (A : Arith) (levels : LevelTable)
include h

theorem run (g : Game) (run : Run) (pending : List PlayerInput) (dailyBest : ℕ) :
    R g { g with run, pending, dailyBest } := h.change g run g.phase pending dailyBest (.inl rfl)

theorem setPhase (g : Game) {phase : Phase} (hphase : phase.busy = true) :
    R g (g.setPhase phase) := by
  obtain ⟨pending, hg⟩ := setPhase_spec g phase
  rw [hg]
  exact h.change g g.run phase pending g.dailyBest (.inr hphase)

theorem save (g : Game) : R g (g.save levels) := by
  unfold Game.save
  split
  · exact h.refl g
  · rename_i hp
    split
    · exact h.refl g
    · split
      · exact h.file g g.best g.dailyBest _ (by simpa using hp)
      · exact h.refl g

theorem drawing {α : Type} (p : Asking Draw ℚ α) (g : Game) :
    (Game.drawing p g).Always fun x => R g x.2 := by
  induction p generalizing g with
  | done a => exact always_done.mpr (h.refl g)
  | ask q next ih =>
      exact (h.draw q g).bind fun x hx => (ih x.1 x.2).mono fun y hy => h.trans hx hy

/-- Two programs in a row. -/
theorem bind {p : Asking Draw ℚ Game} {f : Game → Asking Draw ℚ Game}
    (hp : p.Always (R g)) (hf : ∀ g', (f g').Always (R g')) : (p >>= f).Always (R g) :=
  Always.bind hp fun g' hg' => (hf g').mono fun _ hb => h.trans hg' hb

/-- A program that draws values for the one after it. -/
theorem after {α : Type} {p : Asking Draw ℚ (α × Game)} {f : α × Game → Asking Draw ℚ Game}
    (hp : p.Always fun x => R g x.2) (hf : ∀ x, (f x).Always (R x.2)) : (p >>= f).Always (R g) :=
  Always.bind hp fun x hx => (hf x).mono fun _ hb => h.trans hx hb

theorem beginSegment (start : StartInput) (showTip : Bool) (g : Game) :
    (Game.beginSegment A levels start showTip g).Always (R g) := by
  refine h.after (h.drawing _ _) fun x => always_done.mpr ?_
  refine h.trans (h.run x.2 _ _ _) (h.trans (h.setPhase _ ?_) (h.save levels _))
  split <;> rfl

theorem startReplay (g : Game) : R g (Game.startReplay A levels g) := by
  unfold Game.startReplay
  dsimp only
  split
  · exact h.trans (h.run g _ _ _) (h.setPhase _ rfl)
  · refine h.trans ?_ (h.setPhase _ rfl)
    split
    · exact h.refl g
    · rename_i hp
      exact h.file g g.best g.dailyBest _ (by simpa using hp)

theorem closeSegment (endTick : ℕ) (g : Game) : R g (g.closeSegment levels endTick) := by
  unfold Game.closeSegment
  split
  · exact h.run g _ g.pending g.dailyBest
  · rename_i hp
    exact h.trans (h.run g _ g.pending g.dailyBest)
      (h.file _ g.best g.dailyBest _ (by simpa using hp))

theorem hotfix (g : Game) : (Game.hotfix A levels g).Always (R g) := by
  refine (h.beginSegment A levels _ _ _).mono fun g' hg' => ?_
  exact h.trans (h.trans (h.run g _ _ _) (h.closeSegment levels _ _)) hg'

theorem incident (i : ℕ) (state : GameState) (g : Game) :
    (Game.incident A levels i state g).Always (R g) := by
  refine h.bind ?_ fun g' => always_done.mpr (h.run g' _ _ _)
  refine (h.beginSegment A levels _ _ _).mono fun g' hg' => ?_
  exact h.trans (h.trans (h.run g _ _ _) (h.closeSegment levels _ _)) hg'

theorem replayed (state : GameState) (g : Game) :
    (Game.replayed A levels state g).Always (R g) := by
  refine h.after ((h.drawing _ _).mono fun x hx => h.trans (h.run g _ _ _) hx) fun x => ?_
  exact always_done.mpr (h.trans (h.run x.2 _ _ _) (h.setPhase _ rfl))

theorem advanceReplay (g : Game) : (Game.advanceReplay A levels g).Always (R g) := by
  unfold Game.advanceReplay
  split
  · exact always_done.mpr (h.refl g)
  · refine h.after (h.drawing _ _) fun x => ?_
    dsimp only
    split
    · exact always_done.mpr (h.run x.2 _ _ _)
    · split
      · exact (h.replayed A levels _ _).mono fun g' hg' => h.trans (h.run x.2 _ _ _) hg'
      · exact (h.incident A levels _ _ _).mono fun g' hg' => h.trans (h.run x.2 _ _ _) hg'

theorem restoreSave (b : SaveBody) (g : Game) :
    (Game.restoreSave A levels b g).Always (R g) := by
  have hgo : ∀ g : Game, (Game.restartFromHistory A levels b.tick g).Always (R g) := by
    intro g
    refine h.after ((h.drawing _ _).mono fun x hx => h.trans (h.run g _ _ _) hx) fun x => ?_
    exact always_done.mpr (h.trans (h.run x.2 _ _ _) (h.startReplay A levels _))
  exact (hgo _).mono fun g' hg' => h.trans (h.run g _ g.pending _) hg'

theorem gameOver (today reason : Str) (g : Game) : R g (g.gameOver today reason) := by
  unfold Game.gameOver
  refine h.trans ?_ (h.setPhase _ rfl)
  dsimp only
  split
  · exact h.refl g
  · rename_i hp
    split <;> split <;> exact h.file g _ _ _ (by simpa using hp)

theorem retry (hit : GameState) (g : Game) : (Game.retry A levels hit g).Always (R g) := by
  unfold Game.retry
  split
  · exact always_done.mpr (h.refl g)
  · unfold Game.rewindTo
    refine h.after ((h.drawing _ _).mono fun x hx => h.trans (h.run g _ _ _) hx) fun x => ?_
    exact always_done.mpr
      (h.trans (h.run x.2 _ _ _) (h.trans (h.setPhase _ rfl) (h.save levels _)))

theorem levelDone (state : GameState) (g : Game) :
    (Game.levelDone A levels state g).Always (R g) := by
  unfold Game.levelDone
  refine h.bind ((h.beginSegment A levels _ _ _).mono fun g' hg' => ?_) fun g' => ?_
  · exact h.trans (h.trans (h.run g _ _ _) (h.closeSegment levels _ _)) (h.trans (h.run _ _ _ _) hg')
  · dsimp only
    split
    · exact always_done.mpr (h.refl g')
    · exact always_done.mpr (h.trans (h.run g' _ _ _) (h.setPhase _ rfl))

theorem goOn (today : Str) (r : StepResult) (g : Game) :
    (Game.goOn A levels today r g).Always (R g) := by
  unfold Game.goOn
  split
  · exact always_done.mpr (h.gameOver _ _ g)
  · split
    · exact h.levelDone A levels _ g
    · dsimp only
      split
      · split
        · exact (h.hotfix A levels _).mono fun g' hg' => h.trans (h.run g _ _ _) hg'
        · exact always_done.mpr (h.run g _ _ _)
      · split
        · exact always_done.mpr (h.trans (h.run g _ _ _)
            (h.trans (h.run _ _ _ _) (h.trans (h.setPhase _ rfl) (h.save levels _))))
        · split
          · exact always_done.mpr (h.run g _ _ _)
          · exact always_done.mpr (h.trans (h.run g _ _ _) (h.save levels _))

/-- What a tick does once it has its inputs. -/
theorem afterStep (today : Str) (r : StepResult) (calls : List ℚ) (g : Game) :
    (Game.afterStep A levels today r calls g).Always (R g) := by
  unfold Game.afterStep
  split
  · exact h.retry A levels _ _
  · refine h.after (h.drawing _ _) fun x => ?_
    exact (h.goOn A levels _ _ _).mono fun g' hg' => h.trans (h.run x.2 _ _ _) hg'

/-- A tick, but for taking its inputs. -/
theorem tick (today : Str) (g : Game) :
    (Game.tick A levels today g).Always (R g.takeInputs.2) := by
  unfold Game.tick
  refine h.after ((h.drawing _ _).mono fun x hx => ?_) fun x => h.afterStep A levels today _ _ _
  exact h.trans (h.run g.takeInputs.2 _ _ _) hx

theorem confirm (g : Game) : (Game.confirm A levels g).Always (R g) := by
  unfold Game.confirm
  split
  · exact always_done.mpr (h.setPhase g rfl)
  · exact (h.beginSegment A levels _ _ _).mono fun g' hg' => h.trans (h.run g _ _ _) hg'
  · exact always_done.mpr (h.refl g)

/-- A frame, in every phase but that of live ticks. -/
theorem frameBody (today : Str) (n : ℕ) (g : Game)
    (hticks : g.phase = .playing → (Game.ticks A levels today n g).Always (R g)) :
    (Game.frameBody A levels today n g).Always (R g) := by
  unfold Game.frameBody
  split
  · exact hticks ‹_›
  · split
    · exact always_done.mpr (h.change g g.run _ g.pending g.dailyBest (.inr rfl))
    · exact always_done.mpr (h.startReplay A levels g)
  · exact h.advanceReplay A levels g
  · split
    · exact always_done.mpr (h.change g g.run _ g.pending g.dailyBest (.inr rfl))
    · exact always_done.mpr (h.setPhase g rfl)
  · dsimp only
    split
    · exact always_done.mpr (h.trans (h.run g _ _ _) (h.setPhase _ rfl))
    · exact always_done.mpr (h.run g _ _ _)
  · exact always_done.mpr (h.refl g)

theorem endFrame (today : Str) (g : Game) : R g (g.endFrame today) := by
  unfold Game.endFrame
  split
  · exact h.refl g
  · split
    · exact h.gameOver _ _ g
    · exact h.refl g

end Steady

/-! ## 3. Frames -/

/-- A steady relation that frames keep, which take inputs and repeat recorded resumes. -/
structure Driven (R : Game → Game → Prop) : Prop extends Steady R where
  inputs : ∀ g : Game, R g g.takeInputs.2
  restart : ∀ (g : Game) (k i c : ℕ) (e : Bool),
    R g { g with restartCursor := k, source := .player i c e }

namespace Driven

variable {R : Game → Game → Prop} (h : Driven R) (A : Arith) (levels : LevelTable)
include h

theorem tick (today : Str) (g : Game) : (Game.tick A levels today g).Always (R g) :=
  (h.toSteady.tick A levels today g).mono fun _ hg' => h.trans (h.inputs g) hg'

theorem autoplay (g : Game) : (Game.autoplay A levels g).Always (R g) := by
  unfold Game.autoplay
  refine h.bind (h.confirm A levels g) fun g' => ?_
  split
  · exact always_done.mpr (h.refl g')
  · exact always_done.mpr (h.refl g')
  · exact always_done.mpr (h.refl g')
  · exact always_done.mpr (h.refl g')
  · exact (h.restoreSave A levels _ _).mono fun g'' hg'' => h.trans (h.restart g' _ _ _ _) hg''

theorem ticks (today : Str) (n : ℕ) (g : Game) :
    (Game.ticks A levels today n g).Always (R g) := by
  induction n generalizing g with
  | zero => exact always_done.mpr (h.refl g)
  | succ n ih =>
      unfold Game.ticks
      split
      · exact h.bind (h.tick A levels today g) fun g' => ih g'
      · exact always_done.mpr (h.refl g)

theorem frameBody (today : Str) (n : ℕ) (g : Game) :
    (Game.frameBody A levels today n g).Always (R g) :=
  h.toSteady.frameBody A levels today n g fun _ => h.ticks A levels today n g

theorem frameStep (today : Str) (n : ℕ) (g : Game) :
    (Game.frameStep A levels today n g).Always (R g) := by
  unfold Game.frameStep
  refine h.bind ?_ fun g' => h.bind (h.frameBody A levels today n g') fun g'' => ?_
  · split
    · exact h.autoplay A levels g
    · exact always_done.mpr (h.refl g)
  · exact always_done.mpr (h.endFrame today g'')

theorem frame (today : Str) (n : ℕ) (g : Game) : (Game.frame A levels today n g).Always (R g) := by
  unfold Game.frame
  generalize (if g.playback = true then g.speed else 1) = steps
  induction steps generalizing g with
  | zero => exact always_done.mpr (h.refl g)
  | succ k ih => exact h.bind (h.frameStep A levels today n g) fun g' => ih g'

end Driven

end DevDashboard.Web.Replay
