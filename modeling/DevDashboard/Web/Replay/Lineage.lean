/-
  File:      DevDashboard/Web/Replay/Lineage.lean
  Subject:   WHERE THE TAPE OF A LIVE GAME COMES FROM (runtime/game.ts).

  Live play goes in small steps (`Beat`): a tick, a frame without ticks, a card that is confirmed,
  something that leaves the run alone, or the resume of a save. A resume goes back to the state the
  save was made in, with its tape; what was played after that save is on no tape any more. So the
  states a tape has seen are not those of the run but those of its lineage (`Lineage`).

  * `Journey.call` -- **every live game has a lineage**, and so has the save in the store.
-/
import Mathlib.Logic.Relation
import DevDashboard.Web.Replay.Runs
import DevDashboard.Web.Replay.Echo

namespace DevDashboard.Web.Replay

open Lib Asking

/-! ## 1. Small steps -/

variable (A : Arith) (levels : LevelTable)

/-- A save was made where live play stands. -/
structure SavedAt (s : Save) (g : Game) : Prop where
  tape : s.tape = g.tape
  durable : (levels s.body.start.level).durable = true
  opened : g.phase.open_ = true
  replaying : g.phase = .replaying → s.body.start = g.run.start ∧
    s.body.history = g.run.history ∧ s.body.tick = g.run.crashTick

/-- Phases that change from frame to frame without a tick. -/
def Phase.moves : Phase → Bool
  | .crashing _ | .replaying | .rewinding _ _ _ _ | .montage _ => true
  | _ => false

/-- The phase is the same but for a pause. -/
def Paused (phase phase' : Phase) : Prop :=
  phase' = phase ∨ phase = .playing ∧ phase' = .paused ∨ phase = .paused ∧ phase' = .playing

/-- The small steps that play. -/
inductive Move : Game → Game → Prop where
  | skip {g g' : Game} {n : ℕ} (hphase : g.phase = .montage n) (hstill : Still g g')
      (htape : g'.tape = g.tape) (hrun : g'.run = { g.run with montage := none })
      (hphase' : g'.phase = .tip g.run.start.level) : Move g g'
  | confirm {g g' : Game} {tr : List (Draw × ℚ)}
      (hphase : (∃ level, g.phase = .tip level) ∨ g.phase = .lost)
      (hg : (Game.confirm A levels g).Gives tr g') : Move g g'
  | body {g g' : Game} {today : Str} {n : ℕ} {tr : List (Draw × ℚ)} (hphase : g.phase.moves = true)
      (hg : (Game.frameBody A levels today n g).Gives tr g') : Move g g'
  | tick {g g' : Game} {today : Str} {tr : List (Draw × ℚ)} (hphase : g.phase = .playing)
      (hg : (Game.tick A levels today g).Gives tr g') : Move g g'

/-- The small steps of live play. -/
inductive Beat : Game → Game → Prop where
  | quiet {g g' : Game} (hstill : Still g g') (htape : g'.tape = g.tape) (hrun : g'.run = g.run)
      (hphase : Paused g.phase g'.phase) : Beat g g'
  | move {g g' : Game} (hm : Move A levels g g') : Beat g g'
  | jump {g g' : Game} {s : Save} {x : Game} {tr : List (Draw × ℚ)} (hs : SavedAt levels s g)
      (hx : x.playback = false) (hg : (Game.resumeSaved A levels s x).Gives tr g') : Beat g g'

/-- A run that was just begun. -/
def Born (g : Game) : Prop :=
  ∃ (x : Game) (today : Str) (tr : List (Draw × ℚ)), (Game.newRun A levels today x).Gives tr g

/-- Small steps lead to the game from where its run was begun. -/
def Lineage (g : Game) : Prop := ∃ b, Born A levels b ∧ Relation.ReflTransGen (Beat A levels) b g

variable {A levels} {g g' : Game}

theorem Lineage.beat (h : Lineage A levels g) (hb : Beat A levels g g') : Lineage A levels g' := by
  obtain ⟨b, hborn, hpath⟩ := h
  exact ⟨b, hborn, hpath.tail hb⟩

theorem Born.live (h : Born A levels g) : Live g := by
  obtain ⟨x, today, tr, h⟩ := h
  exact (steady_still.beginSegment A levels _ _ _ tr g h).live ⟨rfl, rfl, rfl⟩

/-- The recorder notes the inputs of a tick. -/
theorem takeInputs_tape (h : Live g) : g.takeInputs.2.tape = { g.tape with
    inputs := g.tape.inputs ++ g.pending.map fun k => (g.liveTick, k)
    liveTick := g.liveTick + 1 } := by
  unfold Game.takeInputs
  dsimp only
  rw [if_neg (by rw [h.playback]; decide)]

theorem live_takeInputs (h : Live g) : Live g.takeInputs.2 := by
  have htape := takeInputs_tape h
  have htick : g.takeInputs.2.liveTick = g.liveTick + 1 := by
    unfold Game.takeInputs
    dsimp only
    split <;> rfl
  obtain ⟨tape, liveTick, inputCursor, hg⟩ := takeInputs_frame g
  rw [hg] at htape htick ⊢
  refine ⟨h.playback, h.source, ?_⟩
  dsimp only at htape htick ⊢
  rw [htick, htape]

theorem before_takeInputs (h : Live g) : g.tape.Before g.takeInputs.2.tape := by
  rw [takeInputs_tape h]
  refine ⟨rfl, List.prefix_rfl, List.prefix_rfl, ⟨_, rfl, fun i hi => ?_⟩,
    ⟨[], (List.append_nil _).symm, by simp⟩, ?_⟩
  · obtain ⟨k, _, rfl⟩ := List.mem_map.mp hi
    exact h.liveTick.ge
  · rw [h.liveTick]
    exact Nat.le_succ _

theorem frameBody_still (h : g.phase.moves = true) (today : Str) (n : ℕ) :
    (Game.frameBody A levels today n g).Always (Still g) :=
  steady_still.frameBody A levels today n g fun hphase => by
    rw [hphase] at h
    cases h

/-- A step that plays writes on the tape; but for a tick, only values. -/
theorem Move.still (h : Move A levels g g') : Still g g' ∨
    g.phase = .playing ∧ Still g.takeInputs.2 g' := by
  cases h with
  | skip _ hstill _ _ _ => exact .inl hstill
  | confirm _ hg => exact .inl (steady_still.confirm A levels g _ g' hg)
  | body hphase hg => exact .inl (frameBody_still hphase _ _ _ g' hg)
  | tick hphase hg => exact .inr ⟨hphase, steady_still.tick A levels _ g _ g' hg⟩

/-- **A small step writes on the tape**, and the recorder stays on. -/
theorem Beat.live (h : Beat A levels g g') (hl : Live g) : Live g' ∧ g.tape.Before g'.tape := by
  cases h with
  | quiet hstill _ _ _ => exact ⟨hstill.live hl, hstill.before⟩
  | move hm =>
      rcases hm.still with hstill | ⟨_, hstill⟩
      · exact ⟨hstill.live hl, hstill.before⟩
      · exact ⟨hstill.live (live_takeInputs hl), (before_takeInputs hl).trans hstill.before⟩
  | jump hs hx hg =>
      have hstill := steady_still.restoreSave A levels _ _ _ g' hg
      refine ⟨hstill.live ⟨hx, rfl, rfl⟩, ?_⟩
      rw [← hs.tape]
      refine Tape.Before.trans ?_ hstill.before
      refine ⟨rfl, List.prefix_rfl, List.prefix_rfl, ⟨[], (List.append_nil _).symm, by simp⟩,
        ⟨_, rfl, fun r hr => ?_⟩, le_rfl⟩
      rw [List.mem_singleton.mp hr]

theorem path_live {c : Game} (h : Relation.ReflTransGen (Beat A levels) g c) (hl : Live g) :
    Live c ∧ g.tape.Before c.tape := by
  induction h with
  | refl => exact ⟨hl, .refl _⟩
  | tail _ hb ih =>
      obtain ⟨hlive, hbefore⟩ := ih
      exact ⟨(hb.live hlive).1, hbefore.trans (hb.live hlive).2⟩

theorem Lineage.live (h : Lineage A levels g) : Live g := by
  obtain ⟨b, hborn, hpath⟩ := h
  exact (path_live hpath hborn.live).1

/-! ## 2. What a method leaves in the store -/

variable (levels) in
/-- The save in the store was there before, or was made where the method ends. -/
def Files (g g' : Game) : Prop :=
  ∀ s, g'.store.save = some s → g.store.save = some s ∨ SavedAt levels s g'

/-- The save in the store was there before. -/
def Keeps (g g' : Game) : Prop := ∀ s, g'.store.save = some s → g.store.save = some s

theorem Keeps.files (h : Keeps g g') : Files levels g g' := fun s hs => .inl (h s hs)

theorem Keeps.trans {g'' : Game} (h : Keeps g g') (h' : Keeps g' g'') : Keeps g g'' :=
  fun s hs => h s (h' s hs)

theorem Keeps.then {g'' : Game} (h : Keeps g g') (h' : Files levels g' g'') : Files levels g g'' := by
  intro s hs
  exact (h' s hs).imp_left (h s)

theorem keeps_of_store (h : g'.store = g.store) : Keeps g g' := by
  intro s hs
  rwa [h] at hs

theorem Drawn.keeps (h : Drawn g g') : Keeps g g' := by
  obtain ⟨impure, chaos, source, rfl⟩ := h.frame
  exact keeps_of_store rfl

theorem setPhase_keeps (phase : Phase) : Keeps g (g.setPhase phase) := by
  obtain ⟨pending, h⟩ := setPhase_spec g phase
  rw [h]
  exact keeps_of_store rfl

/-- Something is saved in the phases of an open segment alone. -/
theorem open_of_saveTick {tick : ℕ} (h : g.saveTick = some tick) : g.phase.open_ = true := by
  unfold Game.saveTick at h
  generalize g.phase = phase at h
  cases phase <;> first | rfl | cases h

theorem save_files (g : Game) : Files levels g (g.save levels) := by
  intro s hs
  unfold Game.save at hs ⊢
  split at hs
  · exact .inl hs
  · rename_i hp
    rw [if_neg hp]
    split at hs
    · exact .inl hs
    · rename_i tick htick
      split at hs
      · rename_i hd
        obtain rfl := Option.some.inj hs
        rw [if_pos hd]
        refine .inr ⟨rfl, hd, open_of_saveTick htick, fun hphase => ⟨rfl, rfl, ?_⟩⟩
        have hphase : g.phase = .replaying := hphase
        unfold Game.saveTick at htick
        rw [hphase] at htick
        exact (Option.some.inj htick).symm
      · exact .inl hs

theorem setPhase_save_files (g : Game) (phase : Phase) :
    Files levels g ((g.setPhase phase).save levels) := (setPhase_keeps phase).then (save_files _)

/-- What follows a save without drawing or replaying keeps it. -/
theorem SavedAt.after {s : Save} (h : SavedAt levels s g) (htape : g'.tape = g.tape)
    (hopen : g'.phase.open_ = true) (hphase : g'.phase ≠ .replaying) : SavedAt levels s g' :=
  ⟨h.tape.trans htape.symm, h.durable, hopen, fun h => absurd h hphase⟩

section

variable (A : Arith) (levels : LevelTable)

theorem beginSegment_files (start : StartInput) (showTip : Bool) (g : Game) :
    (Game.beginSegment A levels start showTip g).Always (Files levels g) := by
  refine (drawing_spec _ g).bind fun x hx => always_done.mpr ?_
  have hkeep : Keeps g { x.2 with run := x.2.run.begin_ A levels start x.1, pending := [] } :=
    hx.1.keeps.trans (keeps_of_store rfl)
  exact hkeep.then (setPhase_save_files _ _)

theorem closeSegment_keeps (endTick : ℕ) (g : Game) : Keeps g (g.closeSegment levels endTick) := by
  intro s hs
  unfold Game.closeSegment at hs
  dsimp only at hs
  split at hs
  · exact hs
  · exact hs

theorem hotfix_files (g : Game) : (Game.hotfix A levels g).Always (Files levels g) := by
  refine (beginSegment_files A levels _ _ _).mono fun g' hg' => Keeps.then ?_ hg'
  exact Keeps.trans (keeps_of_store rfl) (closeSegment_keeps levels _ _)

theorem incident_files (i : ℕ) (state : GameState) (g : Game) :
    (Game.incident A levels i state g).Always (Files levels g) := by
  unfold Game.incident
  refine Always.bind (P := fun g' => Files levels g g' ∧ g'.phase = .playing) ?_ fun g' h =>
    always_done.mpr fun s hs => ?_
  · intro tr g' hg'
    refine ⟨?_, ?_⟩
    · refine Keeps.then ?_ (beginSegment_files A levels _ _ _ tr g' hg')
      exact Keeps.trans (keeps_of_store rfl) (closeSegment_keeps levels _ _)
    · obtain ⟨t, u, x, rfl, _, hx⟩ := gives_bind.mp hg'
      obtain ⟨rfl, rfl⟩ := gives_done.mp hx
      rw [save_phase, setPhase_phase]
      rfl
  · refine (h.1 s hs).imp_right fun hat => hat.after rfl ?_ ?_
    · dsimp only
      rw [h.2]
      rfl
    · dsimp only
      rw [h.2]
      nofun

theorem startReplay_keeps (g : Game) : Keeps g (Game.startReplay A levels g) := by
  unfold Game.startReplay
  dsimp only
  split
  · exact Keeps.trans (keeps_of_store rfl) (setPhase_keeps _)
  · refine Keeps.trans ?_ (setPhase_keeps _)
    split
    · exact fun s hs => hs
    · exact fun s hs => nomatch hs

theorem replayed_files (state : GameState) (g : Game) :
    (Game.replayed A levels state g).Always (Files levels g) := by
  unfold Game.replayed
  refine (drawing_spec _ _).bind fun x hx => always_done.mpr (Keeps.files ?_)
  exact (hx.1.keeps.trans (keeps_of_store rfl)).trans (setPhase_keeps _)

theorem advanceReplay_files (g : Game) :
    (Game.advanceReplay A levels g).Always (Files levels g) := by
  unfold Game.advanceReplay
  split
  · exact always_done.mpr fun s hs => .inl hs
  · refine (drawing_spec _ g).bind fun x hx => ?_
    have hkeep : ∀ run : Run, Keeps g { x.2 with run } := fun run =>
      hx.1.keeps.trans (keeps_of_store rfl)
    dsimp only
    split
    · exact always_done.mpr (hkeep _).files
    · split
      · exact (replayed_files A levels _ _).mono fun g' hg' => (hkeep _).then hg'
      · exact (incident_files A levels _ _ _).mono fun g' hg' => (hkeep _).then hg'

theorem restoreSave_keeps (b : SaveBody) (g : Game) :
    (Game.restoreSave A levels b g).Always (Keeps g) := by
  unfold Game.restoreSave Game.restartFromHistory
  refine (drawing_spec _ _).bind fun x hx => always_done.mpr ?_
  exact (hx.1.keeps.trans (keeps_of_store rfl)).trans (startReplay_keeps A levels _)

theorem gameOver_keeps (today reason : Str) (g : Game) : Keeps g (g.gameOver today reason) := by
  unfold Game.gameOver
  refine Keeps.trans ?_ (setPhase_keeps _)
  dsimp only
  split
  · exact fun s hs => hs
  · split <;> split <;> exact fun s hs => nomatch hs

theorem retry_files (hit : GameState) (g : Game) :
    (Game.retry A levels hit g).Always (Files levels g) := by
  unfold Game.retry
  split
  · exact always_done.mpr fun s hs => .inl hs
  · unfold Game.rewindTo
    refine (drawing_spec _ _).bind fun x hx => always_done.mpr ?_
    exact Keeps.then (hx.1.keeps.trans (keeps_of_store rfl)) (setPhase_save_files _ _)

theorem levelDone_files (state : GameState) (g : Game) :
    (Game.levelDone A levels state g).Always (Files levels g) := by
  unfold Game.levelDone
  refine (beginSegment_files A levels _ _ _).bind fun g' h => ?_
  have hfiles : Files levels g g' := by
    refine Keeps.then ?_ h
    exact Keeps.trans (keeps_of_store rfl) ((closeSegment_keeps levels _ _).trans (keeps_of_store rfl))
  dsimp only
  split
  · exact always_done.mpr hfiles
  · refine always_done.mpr fun s hs => ?_
    have hkeep := setPhase_keeps _ s hs
    refine (hfiles s hkeep).imp_right fun hat => hat.after ?_ ?_ ?_
    · rw [setPhase_tape]
    · rw [setPhase_phase]
      rfl
    · rw [setPhase_phase]
      nofun

theorem goOn_files (today : Str) (r : StepResult) (g : Game) :
    (Game.goOn A levels today r g).Always (Files levels g) := by
  have hkeep : Keeps g { g with run := { g.run with rewind := g.run.rewind.push r.state } } :=
    keeps_of_store rfl
  unfold Game.goOn
  split
  · exact always_done.mpr (gameOver_keeps _ _ g).files
  · split
    · exact levelDone_files A levels _ g
    · dsimp only
      split
      · split
        · exact (hotfix_files A levels _).mono fun g' hg' => hkeep.then hg'
        · exact always_done.mpr hkeep.files
      · split
        · refine always_done.mpr (hkeep.then ?_)
          exact Keeps.then (keeps_of_store rfl) (setPhase_save_files _ _)
        · split
          · exact always_done.mpr hkeep.files
          · exact always_done.mpr (hkeep.then (save_files _))

theorem tick_files (today : Str) (g : Game) :
    (Game.tick A levels today g).Always (Files levels g) := by
  have htaken : Keeps g g.takeInputs.2 := by
    obtain ⟨tape, liveTick, inputCursor, h⟩ := takeInputs_frame g
    rw [h]
    exact keeps_of_store rfl
  unfold Game.tick
  refine (drawing_spec _ _).bind fun x hx => ?_
  have hkeep : Keeps g x.2 := (htaken.trans (keeps_of_store rfl)).trans hx.1.keeps
  unfold Game.afterStep
  split
  · exact (retry_files A levels _ _).mono fun g' hg' => hkeep.then hg'
  · refine (drawing_spec _ _).bind fun y hy => ?_
    refine (goOn_files A levels _ _ _).mono fun g' hg' => Keeps.then ?_ hg'
    exact (hkeep.trans hy.1.keeps).trans (keeps_of_store rfl)

theorem confirm_files (g : Game) : (Game.confirm A levels g).Always (Files levels g) := by
  unfold Game.confirm
  split
  · exact always_done.mpr (setPhase_keeps _).files
  · exact (beginSegment_files A levels _ _ _).mono fun g' hg' => Keeps.then (keeps_of_store rfl) hg'
  · exact always_done.mpr fun s hs => .inl hs

theorem frameBody_files (today : Str) (n : ℕ) (g : Game) (h : g.phase.moves = true) :
    (Game.frameBody A levels today n g).Always (Files levels g) := by
  unfold Game.frameBody
  split
  · rename_i hphase
    rw [hphase] at h
    cases h
  · split
    · exact always_done.mpr (keeps_of_store rfl).files
    · exact always_done.mpr (startReplay_keeps A levels g).files
  · exact advanceReplay_files A levels g
  · split
    · exact always_done.mpr (keeps_of_store rfl).files
    · exact always_done.mpr (setPhase_keeps _).files
  · dsimp only
    split
    · exact always_done.mpr (Keeps.trans (keeps_of_store rfl) (setPhase_keeps _)).files
    · exact always_done.mpr (keeps_of_store rfl).files
  · exact always_done.mpr fun s hs => .inl hs

theorem suspend_files (g : Game) : Files levels g (g.suspend levels) := by
  unfold Game.suspend
  split
  · exact setPhase_save_files g _
  · exact save_files g

end

/-! ## 3. Runs -/

variable (A levels) in
/-- **A live game has a lineage**, and the save in the store was made where a lineage led. -/
structure Journey (g : Game) : Prop where
  lineage : g.playback = false → g.phase.idle = false → Lineage A levels g
  anchored : ∀ s, g.store.save = some s → ∃ c, Lineage A levels c ∧ SavedAt levels s c

theorem Journey.of_lineage (hj : Journey A levels g) (h : Lineage A levels g')
    (hf : Files levels g g') : Journey A levels g' := by
  refine ⟨fun _ _ => h, fun s hs => ?_⟩
  rcases hf s hs with hs | hat
  · exact hj.anchored s hs
  · exact ⟨g', h, hat⟩

/-- What is not live play keeps the save. -/
theorem Journey.of_keeps (hj : Journey A levels g) (hk : Keeps g g')
    (h : g'.playback = true ∨ g'.phase.idle = true) : Journey A levels g' := by
  refine ⟨fun hp hidle => ?_, fun s hs => hj.anchored s (hk s hs)⟩
  rcases h with h | h
  · rw [hp] at h
    cases h
  · rw [hidle] at h
    cases h

/-- A small step of a live game. -/
theorem Journey.beat (hj : Journey A levels g) (hp : g.playback = false)
    (hidle : g.phase.idle = false) (hb : Beat A levels g g') (hf : Files levels g g') :
    Journey A levels g' := hj.of_lineage ((hj.lineage hp hidle).beat hb) hf

/-- A step that leaves run and tape alone. -/
theorem Journey.quiet (hj : Journey A levels g) (hp : g.playback = false)
    (hidle : g.phase.idle = false) (hstill : Still g g') (htape : g'.tape = g.tape)
    (hrun : g'.run = g.run) (hphase : Paused g.phase g'.phase) (hf : Files levels g g') :
    Journey A levels g' := hj.beat hp hidle (.quiet hstill htape hrun hphase) hf

theorem newRun_journey (hj : Journey A levels g) (today : Str) :
    (Game.newRun A levels today g).Always (Journey A levels) := by
  intro tr g' h
  refine hj.of_lineage ⟨g', ⟨g, today, tr, h⟩, .refl⟩ fun s hs => ?_
  refine .inr ((beginSegment_files A levels _ _ _ tr g' h s hs).resolve_left ?_)
  exact fun hnone => nomatch hnone

/-- **A tick after another.** -/
theorem ticks_journey (today : Str) (n : ℕ) (hj : Journey A levels g) (hp : g.playback = false)
    (hidle : g.phase.idle = false) :
    (Game.ticks A levels today n g).Always (Journey A levels) := by
  induction n generalizing g with
  | zero => exact always_done.mpr hj
  | succ n ih =>
      unfold Game.ticks
      split
      · rename_i hphase _
        intro tr g'' h
        obtain ⟨t, u, g', rfl, hg', h⟩ := gives_bind.mp h
        have hk := driven_kept.tick A levels today g t g' hg'
        refine ih (hj.beat hp hidle (.move (.tick hphase hg')) (tick_files A levels today g t g' hg')) ?_ ?_ u
          g'' h
        · exact hk.playback.trans hp
        · exact hk.active hidle
      · exact always_done.mpr hj

theorem frameBody_journey (today : Str) (n : ℕ) (hj : Journey A levels g) (hp : g.playback = false)
    (hidle : g.phase.idle = false) :
    (Game.frameBody A levels today n g).Always (Journey A levels) := by
  by_cases hmoves : g.phase.moves = true
  · exact fun tr g' h => hj.beat hp hidle (.move (.body hmoves h))
      (frameBody_files A levels today n g hmoves tr g' h)
  · unfold Game.frameBody
    generalize hph : g.phase = phase at hmoves
    cases phase with
    | playing => exact ticks_journey today n hj hp hidle
    | crashing k => exact absurd rfl hmoves
    | replaying => exact absurd rfl hmoves
    | rewinding frames index attempt of => exact absurd rfl hmoves
    | montage k => exact absurd rfl hmoves
    | title => exact always_done.mpr hj
    | resume tick => exact always_done.mpr hj
    | tip level => exact always_done.mpr hj
    | paused => exact always_done.mpr hj
    | lost => exact always_done.mpr hj
    | over_ reason => exact always_done.mpr hj

theorem Journey.holdSlide (hj : Journey A levels g) (c : Command) :
    Journey A levels (g.holdSlide c) := by
  have hheld : ∀ slideHeld, Journey A levels { g with slideHeld } := fun slideHeld =>
    ⟨fun hp hidle => (hj.lineage hp hidle).beat
      (.quiet (.change g _ _ _ _ _ slideHeld _) rfl rfl (.inl rfl)), hj.anchored⟩
  unfold Game.holdSlide
  split
  · exact hheld true
  · exact hheld false
  · exact hj

/-- **A saved run is resumed**: its lineage is the one of the save. -/
theorem resumeSaved_journey (hj : Journey A levels g) (hp : g.playback = false) {s : Save}
    (hs : g.store.save = some s) : (Game.resumeSaved A levels s g).Always (Journey A levels) := by
  intro tr g' h
  obtain ⟨c, hc, hat⟩ := hj.anchored s hs
  refine hj.of_lineage (hc.beat (.jump hat hp h)) (Keeps.files ?_)
  unfold Game.resumeSaved at h
  have hk := restoreSave_keeps A levels _ _ tr g' h
  exact hk

/-- **A command in live play.** -/
theorem act_journey (hi : Inv A levels False g) (hj : Journey A levels g) (hp : g.playback = false)
    (today : Str) (c : Command) : (Game.act A levels today c g).Always (Journey A levels) := by
  have hstay : (Asking.done g : Asking Draw ℚ Game).Always (Journey A levels) :=
    always_done.mpr hj
  have hpause : g.phase = .playing → (Asking.done ((g.setPhase .paused).save levels) :
      Asking Draw ℚ Game).Always (Journey A levels) := by
    intro hphase
    refine always_done.mpr (hj.quiet hp (by rw [hphase]; rfl) ?_ ?_ ?_ ?_ (setPhase_save_files g _))
    · exact steady_still.trans (still_setPhase g _) (steady_still.save levels _)
    · simp
    · simp
    · rw [save_phase, setPhase_phase]
      exact .inr (.inl ⟨hphase, rfl⟩)
  have hunpause : g.phase = .paused → (Asking.done (g.setPhase .playing) :
      Asking Draw ℚ Game).Always (Journey A levels) := by
    intro hphase
    refine always_done.mpr (hj.quiet hp (by rw [hphase]; rfl) (steady_still.setPhase g rfl) ?_ ?_ ?_
      (setPhase_keeps _).files)
    · simp
    · simp
    · rw [setPhase_phase]
      exact .inr (.inr ⟨hphase, rfl⟩)
  have hconfirm : (∃ level, g.phase = .tip level) ∨ g.phase = .lost →
      (Game.confirm A levels g).Always (Journey A levels) := by
    intro hphase tr g' h
    refine hj.beat hp ?_ (.move (.confirm hphase h)) (confirm_files A levels g tr g' h)
    rcases hphase with ⟨level, hphase⟩ | hphase <;> rw [hphase] <;> rfl
  unfold Game.act
  split
  · exact newRun_journey hj today
  · exact newRun_journey hj today
  · rename_i tick hphase
    split
    · rename_i s hsaved
      exact resumeSaved_journey hj hp (hi.saved tick hphase s hsaved).2.2
    · exact hstay
  · refine always_done.mpr (hj.of_keeps (Keeps.trans ?_ (setPhase_keeps _)) (.inr ?_))
    · exact fun s hs => nomatch hs
    · rw [setPhase_phase]
      rfl
  · exact hconfirm (.inl ⟨_, ‹_›⟩)
  · exact hconfirm (.inr ‹_›)
  · rename_i n hphase
    refine always_done.mpr (hj.beat hp (by rw [hphase]; rfl) (.move (.skip hphase ?_ ?_ ?_ ?_))
      (Keeps.trans (keeps_of_store rfl) (setPhase_keeps _)).files)
    · exact steady_still.trans (steady_still.run g _ g.pending g.dailyBest)
        (steady_still.setPhase _ rfl)
    · simp
    · simp
    · simp
  · exact hpause ‹_›
  · exact hpause ‹_›
  · rename_i kind hphase
    exact always_done.mpr (hj.quiet hp (by rw [hphase]; rfl)
      (steady_still.run g g.run _ g.dailyBest) rfl rfl (.inl rfl) (keeps_of_store rfl).files)
  · exact hunpause ‹_›
  · exact hunpause ‹_›
  · exact hunpause ‹_›
  · exact hstay

/-- A command in a playback that goes on leaves the store alone. -/
theorem act_watching (hp : g.playback = true) (today : Str) {c : Command}
    (h : g.phase = .paused ∨ c = .pause) :
    (Game.act A levels today c g).Always fun g' => Keeps g g' ∧ g'.playback = true := by
  have hset : ∀ phase, Keeps g (g.setPhase phase) ∧ (g.setPhase phase).playback = true := by
    intro phase
    obtain ⟨pending, hg⟩ := setPhase_spec g phase
    refine ⟨setPhase_keeps phase, ?_⟩
    rw [hg]
    exact hp
  have hsaved : ∀ phase, Keeps g ((g.setPhase phase).save levels) ∧
      ((g.setPhase phase).save levels).playback = true := by
    intro phase
    have hsame : (g.setPhase phase).save levels = g.setPhase phase := by
      unfold Game.save
      rw [if_pos (hset phase).2]
    rw [hsame]
    exact hset phase
  unfold Game.act
  split <;> first
    | exact always_done.mpr (hset _)
    | exact always_done.mpr (hsaved _)
    | exact always_done.mpr ⟨fun s hs => hs, hp⟩
    | (rename_i hphase; rcases h with h | h <;> simp_all)

/-- **A command.** -/
theorem command_journey (hi : Inv A levels False g) (hj : Journey A levels g) (today : Str)
    (c : Command) : (Game.command A levels today c g).Always (Journey A levels) := by
  unfold Game.command
  replace hi := hi.holdSlide c
  replace hj := hj.holdSlide c
  generalize g.holdSlide c = g at hi hj
  dsimp only
  by_cases hp : g.playback = true
  · rw [if_pos hp]
    have hact : g.phase = .paused ∨ c = .pause →
        (Game.act A levels today c g).Always (Journey A levels) := fun h =>
      (act_watching hp today h).mono fun g' hg' => hj.of_keeps hg'.1 (.inl hg'.2)
    split
    · exact newRun_journey hj today
    · exact hact (.inl ‹_›)
    · refine always_done.mpr (hj.of_keeps (Keeps.trans (keeps_of_store rfl) (setPhase_keeps _))
        (.inr ?_))
      rw [setPhase_phase]
      rfl
    · exact hact (.inl ‹_›)
    · exact hact (.inr rfl)
    · exact always_done.mpr hj
  · rw [if_neg hp]
    exact act_journey hi hj (by simpa using hp) today c

theorem suspend_journey (hj : Journey A levels g) (hp : g.playback = false)
    (hidle : g.phase.idle = false) : Journey A levels (g.suspend levels) := by
  have hfiles := suspend_files levels g
  unfold Game.suspend at hfiles ⊢
  split
  · rename_i hphase
    rw [hphase] at hfiles
    refine hj.quiet hp hidle ?_ ?_ ?_ ?_ hfiles
    · exact steady_still.trans (still_setPhase g _) (steady_still.save levels _)
    · simp
    · simp
    · rw [save_phase, setPhase_phase]
      exact .inr (.inl ⟨hphase, rfl⟩)
  · refine hj.quiet hp hidle (steady_still.save levels g) ?_ ?_ ?_ (save_files g)
    · simp
    · simp
    · rw [save_phase]
      exact .inl rfl

/-- **One call** keeps lineages. -/
theorem Journey.call (hi : Inv A levels False g) (hj : Journey A levels g) {a : Action}
    (h : Called A levels g a g') : Journey A levels g' := by
  obtain ⟨tr, h⟩ := h
  cases a with
  | command today c => exact command_journey hi hj today.val c tr g' h
  | frame today n =>
      by_cases hp : g.playback = true
      · have hk := driven_kept.frame A levels today.val n g tr g' h
        refine hj.of_keeps (keeps_of_store ?_) (.inl (hk.playback.trans hp))
        exact (hk.watched hp (hi.watching hp)).2.1
      · replace hp : g.playback = false := by simpa using hp
        cases hidle : g.phase.idle with
        | true =>
            rw [frame_idle hidle hp h]
            exact hj
        | false => exact frame_live hp today.val n (frameBody_journey today.val n hj hp hidle) tr g' h
  | setPlaybackSpeed speed =>
      obtain ⟨rfl, rfl⟩ := gives_done.mp h
      unfold Game.setPlaybackSpeed
      split
      · rename_i hp
        exact hj.of_keeps (keeps_of_store rfl) (.inl hp.1)
      · exact hj
  | suspend =>
      obtain ⟨rfl, rfl⟩ := gives_done.mp h
      cases hidle : g.phase.idle with
      | true =>
          rw [suspend_idle hidle]
          exact hj
      | false =>
          by_cases hp : g.playback = true
          · have hk : Kept g (g.suspend levels) := kept_suspend g
            refine hj.of_keeps (keeps_of_store ?_) (.inl (hk.playback.trans hp))
            exact (hk.watched hp (hi.watching hp)).2.1
          · exact suspend_journey hj (by simpa using hp) hidle
  | watch tape =>
      unfold Action.call Game.watch at h
      dsimp only at h
      split at h
      · have hk := steady_kept.beginSegment A levels _ _ _ tr g' h
        have hstore := (hk.watched rfl ⟨_, _, _, rfl⟩).2.1
        exact hj.of_keeps (keeps_of_store hstore) (.inl hk.playback)
      · obtain ⟨rfl, rfl⟩ := gives_done.mp h
        exact hj
  | reopen today =>
      obtain ⟨rfl, rfl⟩ := gives_done.mp h
      refine hj.of_keeps (keeps_of_store rfl) (.inr ?_)
      unfold Game.create
      dsimp only
      split <;> rfl

/-- **Every live game has a lineage.** -/
theorem journey_of_run {today : Day} {best : ℕ} {daily : Option (Str × ℕ)}
    {l : List (Game × Action)} (h : Runs A levels today best daily l g) : Journey A levels g := by
  have hstart : Inv A levels False (.create A levels today.val (.new best daily)) ∧
      Journey A levels (.create A levels today.val (.new best daily)) := by
    refine ⟨inv_create today (storeOk_new best daily), fun _ hidle => ?_, fun s hs => ?_⟩
    · cases hidle
    · cases hs
  refine (Trace.inv (I := fun g => Inv A levels False g ∧ Journey A levels g) hstart ?_ h).2
  intro g a g' hg ha
  exact ⟨hg.1.step (fun h => h.elim) ha, hg.2.call hg.1 ha⟩

end DevDashboard.Web.Replay
