/-
  File:      DevDashboard/Web/Replay/Retries.lean
  Subject:   A RETRY IS NEVER REFUNDED, in any run of the replay game.

  A hit that costs a retry rewinds to a state of the buffer. That state is later than every attempt
  the history has, because an attempt grants grace and so no hit falls on its tick; the attempts
  therefore stay in the history, and their number is the number of rewinds.
-/
import DevDashboard.Web.Replay.Runs

namespace DevDashboard.Web.Replay

open Lib Asking

variable {A : Arith} {levels : LevelTable} {g : Game}

/-- A tape that some run recorded. -/
def Recorded (A : Arith) (levels : LevelTable) (tape : Tape) : Prop :=
  ∃ (today : Day) (best : ℕ) (daily : Option (Str × ℕ)) (l : List (Game × Action)) (g : Game),
    Runs A levels today best daily l g ∧ g.playback = false ∧ g.phase.idle = false ∧ g.tape = tape

/-- Live play, or the playback of a recorded run. -/
def Genuine (A : Arith) (levels : LevelTable) (g : Game) : Prop :=
  g.playback = true → Recorded A levels g.tape

theorem tapeOk_of_recorded {tape : Tape} (h : Recorded A levels tape) :
    TapeOk A levels False tape := by
  obtain ⟨today, best, daily, l, g, hrun, hp, hidle, rfl⟩ := h
  have hi : Inv A levels False g := inv_of_run hrun False.elim
  refine (hi.good hidle fun h => ?_).base.tape
  rw [hp] at h
  cases h

theorem good_of_run {today : Day} {best : ℕ} {daily : Option (Str × ℕ)} {l : List (Game × Action)}
    (h : Runs A levels today best daily l g) (hgenuine : Genuine A levels g)
    (hidle : g.phase.idle = false) : Good A levels False g :=
  (inv_of_run h False.elim).good hidle fun hp => ⟨not_false, tapeOk_of_recorded (hgenuine hp)⟩

theorem not_idle_of_open {phase : Phase} (h : phase.open_ = true) : phase.idle = false := by
  cases phase <;> first | rfl | cases h

/-- The retries a state has left, and the attempts before its tick. -/
theorem Reached.retries {strict : Prop} {start : StartInput} {values : List (ℕ × ℚ)}
    {H : List HistoryEvent} {s : GameState} (h : Reached A levels strict start values H s)
    (hspent : attempts H ≤ start.retries) : attempts H + s.retries = start.retries := by
  obtain ⟨vs, hl, _⟩ := h
  rw [hl.facts.retries]
  omega

theorem attempts_before_le (n : ℕ) (history : List HistoryEvent) :
    attempts (before n history) ≤ attempts history := by
  rw [attempts, attempts]
  exact ((List.filter_sublist.filterMap _).map _).count_le _

/-- In a replay, too, the state has spent the attempts before its tick. -/
theorem Follows.retries {start : StartInput} {history : List HistoryEvent} {s : GameState}
    {queued : List InputEvent} {r : Replayer}
    (h : Follows A levels start (before s.tick history) s (queued.map .input) r)
    (hspent : attempts history ≤ start.retries) :
    attempts (before r.state.tick history) + r.state.retries = start.retries := by
  obtain ⟨Hn, tl, hsplit, hbefore, hafter, _, hretries, _⟩ := h.cut
  have hcut : before r.state.tick history = Hn := by
    rw [← before_before h.tick, hsplit, before_append_of_le hafter, before_eq_self hbefore]
  have := attempts_before_le r.state.tick history
  rw [hcut] at this ⊢
  rw [hretries]
  omega

/-- The open segment of a good game, as live play left it. -/
theorem Good.opened {strict : Prop} (hg : Good A levels strict g) (hopen : g.phase.open_ = true) :
    ∃ queued, OpenAt A levels strict g.run.start g.run.history g.run.orbValues queued g.run.lived := by
  obtain ⟨_, hr, _⟩ := hg
  generalize g.phase = phase at hr hopen
  cases phase with
  | replaying =>
      obtain ⟨r, _, hr, _⟩ := hr.replaying
      obtain ⟨queued, hopen, _⟩ := hr.opened
      exact ⟨queued, hopen⟩
  | crashing n => exact ⟨_, hr.1.opened⟩
  | montage n => exact ⟨_, hr.1.opened⟩
  | tip level => exact ⟨_, hr.opened⟩
  | playing => exact ⟨_, hr.opened⟩
  | paused => exact ⟨_, hr.opened⟩
  | rewinding frames index attempt of => exact ⟨_, hr.opened⟩
  | title => cases hopen
  | resume tick => cases hopen
  | lost => cases hopen
  | over_ reason => cases hopen

theorem Good.retries {strict : Prop} (hg : Good A levels strict g) (hopen : g.phase.open_ = true) :
    attempts (before g.run.state.tick g.run.history) + g.run.state.retries = g.run.start.retries := by
  have hlive : LiveAt A levels strict g.run →
      attempts (before g.run.state.tick g.run.history) + g.run.state.retries =
        g.run.start.retries := by
    intro h
    have hl := h.opened.line
    rw [h.state] at hl
    exact hl.retries ((attempts_before_le _ _).trans h.opened.spent)
  obtain ⟨_, hr, _⟩ := hg
  generalize g.phase = phase at hr hopen
  cases phase with
  | replaying =>
      obtain ⟨r, _, hr, hstate, _⟩ := hr.replaying
      obtain ⟨queued, hopen, hfollows⟩ := hr.opened
      rw [hstate]
      exact hfollows.retries hopen.spent
  | crashing n => exact hlive hr.1
  | montage n => exact hlive hr.1
  | tip level => exact hlive hr
  | playing => exact hlive hr
  | paused => exact hlive hr
  | rewinding frames index attempt of => exact hlive hr
  | title => cases hopen
  | resume tick => cases hopen
  | lost => cases hopen
  | over_ reason => cases hopen

/-- The retries of a segment: every attempt came later than the one before it, the attempts before
    a state's tick and the retries it has left are all the segment began with, and every rewind left
    its attempt in the history. -/
structure RetryLaw (g : Game) : Prop where
  increasing : (retryTicks g.run.history).Pairwise (· < ·)
  spent : attempts (before g.run.state.tick g.run.history) + g.run.state.retries =
    g.run.start.retries
  bounded : attempts g.run.history ≤ g.run.start.retries
  rewinds : g.run.lived.rewinds = attempts g.run.history

/-- **A retry is never refunded**: in every run the law of retries holds of the open segment, and
    in live play the save in the store has all its rewinds, so closing the page wins none back. -/
theorem retries_never_refunded {today : Day} {best : ℕ} {daily : Option (Str × ℕ)}
    {l : List (Game × Action)} (h : Runs A levels today best daily l g)
    (hgenuine : Genuine A levels g) (hopen : g.phase.open_ = true) :
    RetryLaw g ∧ (g.playback = false → (levels g.run.start.level).durable = true →
      ∃ s, g.store.save = some s ∧ s.body.start = g.run.start ∧
        s.body.lived.rewinds = g.run.lived.rewinds) := by
  have hg := good_of_run h hgenuine (not_idle_of_open hopen)
  obtain ⟨queued, ho⟩ := hg.opened hopen
  exact ⟨⟨ho.retried, hg.retries hopen, ho.spent, ho.rewinds⟩, hg.stored hopen⟩

/-- A rack has hit, and the run has been rewound. -/
theorem retries_never_refunded_hit : RetryLaw afterHit ∧ afterHit.run.lived.rewinds = 1 ∧
    ∃ s, afterHit.store.save = some s ∧ s.body.start = afterHit.run.start ∧
      s.body.lived.rewinds = afterHit.run.lived.rewinds := by
  obtain ⟨l, hl⟩ := runs_rackGame none none [.command newYear (.input .slideStart), .frame newYear 4]
  have hp : afterHit.playback = false := by decide +kernel
  obtain ⟨hlaw, hstored⟩ := retries_never_refunded hl
    (fun h => absurd (hp.symm.trans h) (by decide)) (by decide +kernel)
  exact ⟨hlaw, by decide +kernel, hstored hp (by decide +kernel)⟩

/-- The run, with what the player pressed in the history. -/
def Run.press (run : Run) (pressed : List PlayerInput) : Run :=
  { run with history := run.history ++ pressed.map fun k => .input ⟨run.state.tick, .input k⟩ }

/-- **A rewind goes to a state of the buffer that is later than every attempt**, whatever the player
    pressed and whatever the tick was told: `pick` never falls back to a state before its floor. -/
theorem rewind_after_attempts {today : Day} {best : ℕ} {daily : Option (Str × ℕ)}
    {l : List (Game × Action)} (h : Runs A levels today best daily l g)
    (hgenuine : Genuine A levels g) (hphase : g.phase = .playing) (pressed : List PlayerInput)
    {tr : List (Port × ℚ)} {r : StepResult}
    (hstep : (step A levels g.run.state
      (g.run.queued.map inputOf ++ pressed.map .player)).Gives tr r)
    (hretry : r.state.status = .retry) :
    attempts g.run.history < g.run.start.retries ∧ r.state.failedAt = g.run.state.tick ∧
      ∃ target, Game.retryTarget A levels (g.run.press pressed) r.state = some target ∧
        target ∈ g.run.rewind.all ∧ target.tick ≤ g.run.state.tick ∧
        ∀ n ∈ retryTicks g.run.history, n < target.tick := by
  have hg := good_of_run h hgenuine (by rw [hphase]; rfl)
  have hl : LiveAt A levels False g.run := by
    have := hg.run
    rwa [hphase] at this
  have hs := hl.running
  have hbuf := hl.buffer
  rw [← hl.state] at hs hstep hbuf ⊢
  obtain ⟨hfailed, _, hspent⟩ := hl.opened.hit hs hstep hretry
  obtain ⟨target, htarget, hmem, hticks⟩ := retryTarget_spec hl.opened hbuf hs hstep hretry
    (show (g.run.press pressed).rewind = g.run.rewind from rfl)
    (by rw [hl.state]; rfl)
  exact ⟨hspent, hfailed, target, htarget, hmem, (hbuf.states target hmem).1, hticks⟩

/-- The tick in which the rack hits. -/
theorem rewind_after_attempts_hit : ∃ tr r,
    (step (.exact 4) (racksOnly none none) beforeHit.run.state []).Gives tr r ∧
      r.state.status = .retry ∧
      ∃ target, Game.retryTarget (.exact 4) (racksOnly none none) (beforeHit.run.press []) r.state =
          some target ∧ target ∈ beforeHit.run.rewind.all ∧
        target.tick ≤ beforeHit.run.state.tick := by
  obtain ⟨l, hl⟩ := runs_rackGame none none [.command newYear (.input .slideStart), .frame newYear 3]
  have hp : beforeHit.playback = false := by decide +kernel
  have hphase : beforeHit.phase = .playing := by decide +kernel
  have hqueued : beforeHit.run.queued = [] := by decide +kernel
  obtain ⟨tr, htr⟩ := answer_gives (fun (s : Unit) (_ : Port) => ((0 : ℚ), s))
    (step (.exact 4) (racksOnly none none) beforeHit.run.state []) ()
  have hretry : ((step (.exact 4) (racksOnly none none) beforeHit.run.state []).answer
      (fun (s : Unit) (_ : Port) => ((0 : ℚ), s)) ()).1.state.status = .retry := by decide +kernel
  obtain ⟨_, _, target, htarget, hmem, htick, _⟩ := rewind_after_attempts hl
    (fun h => absurd (hp.symm.trans h) (by decide)) hphase []
    (by rw [show (rackGame none none _).run.queued = [] from hqueued]; exact htr) hretry
  exact ⟨tr, _, htr, hretry, target, htarget, hmem, htick⟩

end DevDashboard.Web.Replay
