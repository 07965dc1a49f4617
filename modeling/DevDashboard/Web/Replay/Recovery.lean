/-
  File:      DevDashboard/Web/Replay/Recovery.lean
  Subject:   THE WAY BACK FROM A CRASH (runtime/game.ts, engine/replay.ts).

  A crashed game counts down the frames of its crash and then replays its history, a stretch of it
  in every frame. `Within` says how many ticks a replay has to go at most; a tick of the replay
  either ends it or takes one of them off.

  * `replay_ends` -- every replay of any history ends;
  * `crash_ends` -- **a crash ends**: frames alone bring the game back to live play, as many as the
    tick of the crash asks for;
  * `recovery_exact` -- **recovery is exact**: without orbs in the history play goes on from the
    very state that crashed, with nothing else of the run changed.
-/
import DevDashboard.Web.Replay.Rebuild

namespace DevDashboard.Web.Replay

open Lib Asking

variable {A : Arith} {levels : LevelTable} {g : Game}

/-! ## 1. Replays end -/

/-- One tick of a replay ends it, or brings it one tick on and leaves it with ticks to go. -/
theorem Replayer.advance1_progress (r : Replayer) :
    (r.advance1 A levels).Always fun r' => r'.toTick = r.toTick ∧
      (r'.done = true ∨ r'.state.tick = r.state.tick + 1 ∧ r'.state.tick < r'.toTick) := by
  intro t r' hr'
  obtain ⟨t, u, next, rfl, hnext, hacc⟩ := gives_bind.mp hr'
  obtain ⟨rfl, rfl⟩ := gives_done.mp hacc
  obtain ⟨tr, hstep, _⟩ := gives_via.mp hnext
  unfold Replayer.accept
  dsimp only
  by_cases hdead : next.state.status = .failed ∨ next.state.status = .retry
  · rw [if_pos hdead]
    exact ⟨rfl, .inl rfl⟩
  · rw [if_neg hdead]
    refine ⟨rfl, ?_⟩
    by_cases hend : r.toTick ≤ next.state.tick ∨ next.state.status ≠ .running
    · exact .inl (decide_eq_true hend)
    · refine .inr ⟨?_, ?_⟩
      · by_cases hrun : r.state.status = .running
        · exact (step_gives hrun hstep).tick
        · -- A tick of a state that does not run changes nothing, so the replay is done.
          obtain ⟨_, rfl⟩ := step_stopped hrun hstep
          exact absurd (.inr hrun) hend
      · dsimp only
        omega

/-- A replay that is not done has at most `n` ticks to go. -/
def Replayer.Within (r : Replayer) (n : ℕ) : Prop :=
  r.done = false → r.state.tick < r.toTick ∧ r.toTick ≤ r.state.tick + n

theorem createReplayer_within {start : StartInput} {history : List HistoryEvent} {toTick n : ℕ}
    (hn : toTick ≤ n) : (createReplayer A levels start history toTick).Within n := by
  intro hdone
  have hmore : ¬ toTick ≤ 0 := of_decide_eq_false hdone
  simp only [createReplayer, initialState]
  omega

theorem Replayer.Within.advance1 {r : Replayer} {n : ℕ} (h : r.Within (n + 1))
    (hdone : r.done = false) : (r.advance1 A levels).Always fun r' => r'.Within n := by
  refine (r.advance1_progress).mono fun r' hr' hmore => ?_
  obtain ⟨hto, hnext⟩ := hr'
  obtain ⟨htick, hlt⟩ := hnext.resolve_left (by rw [hmore]; decide)
  have := (h hdone).2
  omega

/-- `k` ticks bring a replay `k` ticks nearer to its end. -/
theorem Replayer.Within.advance {k n : ℕ} {r : Replayer} (h : r.Within (n + k)) :
    (r.advance A levels k).Always fun r' => r'.Within n := by
  induction k generalizing r with
  | zero => exact always_done.mpr h
  | succ k ih =>
      rw [Replayer.advance]
      by_cases hdone : r.done = true
      · rw [if_pos hdone]
        refine always_done.mpr fun hmore => ?_
        rw [hdone] at hmore
        cases hmore
      · rw [if_neg hdone]
        have h' : r.Within (n + k + 1) := h
        exact (h'.advance1 (by simpa using hdone)).bind fun r' hr' => ih hr'

theorem Replayer.Within.done {r : Replayer} (h : r.Within 0) : r.done = true := by
  by_contra hdone
  have := h (by simpa using hdone)
  omega

/-- **Every replay ends**, of whatever history and whatever it is told: after as many ticks as it
    has to go it is done. -/
theorem replay_ends {start : StartInput} {history : List HistoryEvent} {toTick n : ℕ}
    (hn : toTick ≤ n) :
    ((createReplayer A levels start history toTick).advance A levels n).Always
      fun r => r.done = true := by
  have h : (createReplayer A levels start history toTick).Within (0 + n) := by
    rw [Nat.zero_add]
    exact createReplayer_within hn
  exact h.advance.mono fun r hr => hr.done

/-! ## 2. Recovery -/

theorem eq_done_of_bind {Q R α β : Type} {p : Asking Q R α} {f : α → Asking Q R β} {b : β}
    (h : p >>= f = .done b) : ∃ a, p = .done a ∧ f a = .done b := by
  cases p with
  | done a => exact ⟨a, rfl, h⟩
  | ask q next => cases h

/-- A replay that asks for nothing and ends in `R`. -/
def Replayer.Leads (A : Arith) (levels : LevelTable) (r R : Replayer) : Prop :=
  R.done = true ∧ ∃ n, r.advance A levels n = .done R

/-- Any stretch of such a replay asks for nothing, too, and leads on to its end. -/
theorem Replayer.Leads.advance {r R : Replayer} (h : r.Leads A levels R) (k : ℕ) :
    ∃ r', r.advance A levels k = .done r' ∧ r'.Leads A levels R := by
  obtain ⟨hR, n, hn⟩ := h
  induction k generalizing r n with
  | zero => exact ⟨r, rfl, hR, n, hn⟩
  | succ k ih =>
      by_cases hdone : r.done = true
      · exact ⟨r, Replayer.advance_of_done hdone _, hR, n, hn⟩
      · cases n with
        | zero =>
            cases hn
            exact absurd hR hdone
        | succ n =>
            rw [Replayer.advance, if_neg hdone] at hn ⊢
            obtain ⟨r₁, h₁, hn⟩ := eq_done_of_bind hn
            rw [h₁]
            exact ih n hn

theorem Replayer.Leads.eq {r R : Replayer} (h : r.Leads A levels R) (hdone : r.done = true) :
    r = R := by
  obtain ⟨_, n, hn⟩ := h
  rw [Replayer.advance_of_done hdone n] at hn
  exact Asking.done.inj hn

/-- A stage of such a replay leads to its end. -/
theorem Replayer.Leads.stage {r R r' : Replayer} (h : r.Leads A levels R) {k : ℕ}
    {tr : List (Draw × ℚ)} (hr : (r.advance A levels k).Gives tr r') : r'.Leads A levels R := by
  obtain ⟨r₁, h₁, hlead⟩ := h.advance k
  rw [h₁] at hr
  obtain ⟨_, rfl⟩ := gives_done.mp hr
  exact hlead

/-- The frame of a replay that asks for nothing. -/
theorem replayTicks_of_advance (n : ℕ) {r r' : Replayer} (b : RewindBuffer)
    (h : r.advance A levels n = .done r') :
    ∃ b', Game.replayTicks A levels n r b = .done (r', b') := by
  induction n generalizing r b with
  | zero =>
      cases h
      exact ⟨b, rfl⟩
  | succ n ih =>
      rw [Replayer.advance] at h
      rw [Game.replayTicks]
      by_cases hdone : r.done = true
      · rw [if_pos hdone] at h ⊢
        cases h
        exact ⟨b, rfl⟩
      · rw [if_neg hdone] at h ⊢
        obtain ⟨r₁, h₁, h⟩ := eq_done_of_bind h
        rw [Replayer.advance, if_neg hdone, h₁]
        exact ih _ h

/-- The replay of a history without orbs ends accepted, in the state live play had. -/
theorem Rebuilds.leads {strict : Prop} {start : StartInput} {history : List HistoryEvent}
    {values : List (ℕ × ℚ)} {tick : ℕ} {s : GameState}
    (h : Rebuilds A levels strict start history values tick s) (hnone : orbIds history = []) :
    ∃ R, (createReplayer A levels start history tick).Leads A levels R ∧
      R.divergedAt = none ∧ R.state = s := by
  have hreplay := h.alone hnone
  unfold replay at hreplay
  obtain ⟨R, hR, hres⟩ := eq_done_of_bind hreplay
  have hdone := @replay_ends A levels start history tick tick le_rfl [] R (by rw [hR]; exact .done R)
  refine ⟨R, ⟨hdone, tick, hR⟩, ?_⟩
  have hres := Asking.done.inj hres
  unfold Replayer.result at hres
  split at hres
  · rename_i hdiv
    exact ⟨hdiv, ReplayResult.ok.inj hres⟩
  · cases hres

/-- What a crash, and the replay after it, leave as it was. -/
structure SameRun (g g' : Game) : Prop where
  playback : g'.playback = false
  start : g'.run.start = g.run.start
  segments : g'.run.segments = g.run.segments
  orbValues : g'.run.orbValues = g.run.orbValues
  divergedAt : g'.run.divergedAt = g.run.divergedAt
  runDate : g'.run.runDate = g.run.runDate
  lived : g'.run.lived = g.run.lived

/-- Play goes on where it crashed: the history has only gained the event of its own restart. -/
structure Recovered (g g' : Game) : Prop where
  same : SameRun g g'
  phase : g'.phase = .playing
  state : g'.run.state = g.run.lived.state
  history : g'.run.history =
    g.run.history ++ [.input ⟨g.run.lived.state.tick, .orchestratorStarted⟩]

/-- Play has at most `m` frames to go to that point. -/
structure Recovering (A : Arith) (levels : LevelTable) (g : Game) (m : ℕ) (g' : Game) : Prop where
  same : SameRun g g'
  history : g'.run.history = g.run.history
  crashTick : g'.run.crashTick = g.run.lived.state.tick
  soon : (∃ n, g'.phase = .crashing n ∧ ∃ k, 0 < k ∧ n + 1 + k ≤ m ∧
      g.run.lived.state.tick ≤ k * Game.replaySpeed A g.run.lived.state.tick) ∨
    g'.phase = .replaying ∧ 0 < m ∧ ∃ r R, g'.run.replayer = some r ∧ r.Leads A levels R ∧
      R.divergedAt = none ∧ R.state = g.run.lived.state ∧
      g'.run.replayTicksPerFrame = Game.replaySpeed A g.run.lived.state.tick ∧
      r.Within (m * Game.replaySpeed A g.run.lived.state.tick)

theorem SameRun.setPhase {g₀ : Game} (h : SameRun g₀ g) (phase : Phase) :
    SameRun g₀ (g.setPhase phase) := by
  obtain ⟨pending, hset⟩ := setPhase_spec g phase
  rw [hset]
  exact ⟨h.playback, h.start, h.segments, h.orbValues, h.divergedAt, h.runDate, h.lived⟩

theorem replayed_recovered {g₀ : Game} (h : SameRun g₀ g)
    (hhistory : g.run.history = g₀.run.history) :
    (Game.replayed A levels g₀.run.lived.state g).Always (Recovered g₀) := by
  unfold Game.replayed
  refine (drawing_spec _ _).bind fun x hx => always_done.mpr ?_
  obtain ⟨due, g₁⟩ := x
  obtain ⟨impure, chaos, source, rfl⟩ := hx.1.frame
  refine ⟨SameRun.setPhase ?_ _, setPhase_phase _, ?_, ?_⟩
  · refine ⟨h.playback, h.start, h.segments, h.orbValues, h.divergedAt, h.runDate, ?_⟩
    simp only [Run.recordInput, h.lived]
  · rw [setPhase_run]
    rfl
  · rw [setPhase_run]
    simp only [Run.recordInput, hhistory]

/-- The same run, where only what is not listed differs. -/
theorem SameRun.congr {g₀ g' : Game} (h : SameRun g₀ g) (hp : g'.playback = g.playback)
    (hstart : g'.run.start = g.run.start) (hsegments : g'.run.segments = g.run.segments)
    (hvalues : g'.run.orbValues = g.run.orbValues) (hdiv : g'.run.divergedAt = g.run.divergedAt)
    (hdate : g'.run.runDate = g.run.runDate) (hlived : g'.run.lived = g.run.lived) :
    SameRun g₀ g' :=
  ⟨hp.trans h.playback, hstart.trans h.start, hsegments.trans h.segments, hvalues.trans h.orbValues,
    hdiv.trans h.divergedAt, hdate.trans h.runDate, hlived.trans h.lived⟩

/-- The last frame of a crash starts the replay. -/
theorem startReplay_recovering {g₀ : Game} {R : Replayer} {m : ℕ} (h : SameRun g₀ g)
    (hhistory : g.run.history = g₀.run.history)
    (hcrash : g.run.crashTick = g₀.run.lived.state.tick)
    (hd : (levels g₀.run.start.level).durable = true)
    (hlead : (createReplayer A levels g₀.run.start g₀.run.history g₀.run.lived.state.tick).Leads
      A levels R) (hdiv : R.divergedAt = none) (hstate : R.state = g₀.run.lived.state) (hm : 0 < m)
    (hcover : g₀.run.lived.state.tick ≤ m * Game.replaySpeed A g₀.run.lived.state.tick) :
    Recovering A levels g₀ m (Game.startReplay A levels g) := by
  unfold Game.startReplay
  rw [h.start, if_pos hd, hcrash, hhistory]
  dsimp only
  refine ⟨SameRun.setPhase ?_ _, ?_, ?_, .inr ⟨setPhase_phase _, hm, ?_⟩⟩
  · exact h.congr rfl rfl rfl rfl rfl rfl rfl
  · rw [setPhase_run]
    exact hhistory
  · rw [setPhase_run]
    exact hcrash
  · rw [setPhase_run]
    exact ⟨_, R, rfl, hlead, hdiv, hstate, rfl, createReplayer_within hcover⟩

/-- A frame of the replay is accepted, or leaves less to replay. -/
theorem advanceReplay_recovering {g₀ : Game} {m : ℕ} (h : SameRun g₀ g)
    (hhistory : g.run.history = g₀.run.history)
    (hcrash : g.run.crashTick = g₀.run.lived.state.tick) (hphase : g.phase = .replaying)
    {r R : Replayer} (hr : g.run.replayer = some r) (hlead : r.Leads A levels R)
    (hdiv : R.divergedAt = none) (hstate : R.state = g₀.run.lived.state)
    (hspeed : g.run.replayTicksPerFrame = Game.replaySpeed A g₀.run.lived.state.tick)
    (hwithin : r.Within ((m + 1) * Game.replaySpeed A g₀.run.lived.state.tick)) :
    (Game.advanceReplay A levels g).Always fun g' =>
      Recovered g₀ g' ∨ Recovering A levels g₀ m g' := by
  obtain ⟨r', hr', hlead'⟩ := hlead.advance g.run.replayTicksPerFrame
  obtain ⟨b', hticks⟩ := replayTicks_of_advance _ g.run.rewind hr'
  rw [hspeed] at hr'
  have hwithin' : r'.Within (m * Game.replaySpeed A g₀.run.lived.state.tick) := by
    rw [Nat.succ_mul] at hwithin
    exact hwithin.advance [] r' (by rw [hr']; exact .done r')
  unfold Game.advanceReplay
  rw [hr]
  dsimp only
  rw [hticks, Game.drawing, done_bind]
  dsimp only
  by_cases hdone : r'.done = false
  · rw [if_pos hdone]
    refine always_done.mpr (.inr ⟨h.congr rfl rfl rfl rfl rfl rfl rfl, hhistory, hcrash,
      .inr ⟨hphase, ?_, r', R, rfl, hlead', hdiv, hstate, hspeed, hwithin'⟩⟩)
    refine Nat.pos_of_ne_zero fun h0 => ?_
    rw [h0, Nat.zero_mul] at hwithin'
    rw [hwithin'.done] at hdone
    cases hdone
  · rw [if_neg hdone]
    obtain rfl := hlead'.eq (by simpa using hdone)
    unfold Replayer.result
    rw [hdiv]
    dsimp only
    rw [hstate]
    refine Always.mono (P := Recovered g₀) ?_ fun g' hg' => .inl hg'
    exact replayed_recovered (h.congr rfl rfl rfl rfl rfl rfl rfl) hhistory

/-- **A frame brings recovery a frame nearer**, or is its last. -/
theorem Recovering.frame {g₀ : Game} {m : ℕ} (h : Recovering A levels g₀ (m + 1) g)
    (hd : (levels g₀.run.start.level).durable = true)
    (hrebuild : Rebuilds A levels False g₀.run.start g₀.run.history g₀.run.orbValues
      g₀.run.lived.state.tick g₀.run.lived.state) (hnone : orbIds g₀.run.history = [])
    (today : Str) (n : ℕ) :
    (Game.frame A levels today n g).Always fun g' =>
      Recovered g₀ g' ∨ Recovering A levels g₀ m g' := by
  refine frame_live h.same.playback today n ?_
  unfold Game.frameBody
  rcases h.soon with ⟨j, hphase, k, hk, hm, hcover⟩ | ⟨hphase, _, r, R, hr, hlead, hdiv, hstate, hspeed, hwithin⟩
  · rw [hphase]
    dsimp only
    by_cases hmore : 1 < j
    · rw [if_pos hmore]
      refine always_done.mpr (.inr ⟨h.same.congr rfl rfl rfl rfl rfl rfl rfl, h.history,
        h.crashTick, .inl ⟨j - 1, rfl, k, hk, by omega, hcover⟩⟩)
    · rw [if_neg hmore]
      obtain ⟨R, hlead, hdiv, hstate⟩ := hrebuild.leads hnone
      refine always_done.mpr (.inr ?_)
      refine startReplay_recovering h.same h.history h.crashTick hd hlead hdiv hstate (by omega) ?_
      exact hcover.trans (Nat.mul_le_mul_right _ (by omega))
  · rw [hphase]
    exact advanceReplay_recovering h.same h.history h.crashTick hphase hr hlead hdiv hstate hspeed
      hwithin

/-- Nothing is asked of the game but its next frame. -/
def Action.IsFrame (a : Action) : Prop := ∃ today n, a = .frame today n

/-- What is left of a crash before its replay starts, in frames. -/
def Phase.crashLeft : Phase → ℕ
  | .crashing n => n + 1
  | _ => 0

theorem RunRebuilds.recovering (h : RunRebuilds A levels False g) (hr : RunAt A levels False g.phase g.run)
    (hp : g.playback = false) (hphase : (∃ n, g.phase = .crashing n) ∨ g.phase = .replaying)
    (hnone : orbIds g.run.history = []) {k : ℕ} (hk : 0 < k)
    (hcover : g.run.lived.state.tick ≤ k * Game.replaySpeed A g.run.lived.state.tick) :
    Recovering A levels g (g.phase.crashLeft + k) g := by
  have htick := h.crashed hphase
  refine ⟨⟨hp, rfl, rfl, rfl, rfl, rfl, rfl⟩, rfl, htick.symm, ?_⟩
  rcases hphase with ⟨n, hphase⟩ | hphase
  · refine .inl ⟨n, hphase, k, hk, ?_, hcover⟩
    rw [hphase]
    exact le_rfl
  · rw [hphase] at hr ⊢
    obtain ⟨⟨r, hreplayer, _, _, j, tr, hstage⟩, _, hspeed⟩ := hr
    obtain ⟨R, hlead, hdiv, hstate⟩ := h.rebuilds.leads hnone
    rw [← htick] at hstage hspeed
    have hcreate : (createReplayer A levels g.run.start g.run.history g.run.lived.state.tick).Within
        (k * Game.replaySpeed A g.run.lived.state.tick + j) :=
      createReplayer_within (hcover.trans (Nat.le_add_right _ _))
    refine .inr ⟨rfl, ?_, r, R, hreplayer, hlead.stage hstage, hdiv, hstate, hspeed, ?_⟩
    · exact Nat.add_pos_right _ hk
    · simp only [Phase.crashLeft, Nat.zero_add]
      exact hcreate.advance tr r hstage

/-- Nothing is left to do in no frames. -/
theorem Recovering.pos {g₀ : Game} {m : ℕ} (h : Recovering A levels g₀ m g) : 0 < m := by
  rcases h.soon with ⟨n, _, k, hk, hm, _⟩ | ⟨_, hm, _⟩
  · omega
  · exact hm

/-- **Recovery is exact**: after a crash of a durable level without orbs behind it, frames alone
    bring the game back to the very state that crashed, with nothing else of the run changed.
    `k` frames of the replay are enough if they cover the tick of the crash. -/
theorem recovery_exact {today : Day} {best : ℕ} {daily : Option (Str × ℕ)}
    {l : List (Game × Action)} (h : Runs A levels today best daily l g) (hp : g.playback = false)
    (hphase : (∃ n, g.phase = .crashing n) ∨ g.phase = .replaying)
    (hd : (levels g.run.start.level).durable = true) (hnone : orbIds g.run.history = []) {k : ℕ}
    (hk : 0 < k)
    (hcover : g.run.lived.state.tick ≤ k * Game.replaySpeed A g.run.lived.state.tick)
    {frames : List (Game × Action)} {g' : Game} (hrun : Trace (Called A levels) g frames g')
    (hframes : ∀ p ∈ frames, p.2.IsFrame)
    (hlength : g.phase.crashLeft + k ≤ frames.length) :
    ∃ s, (s = g' ∨ s ∈ frames.map Prod.fst) ∧ Recovered g s := by
  have hopen : g.phase.open_ = true := by
    rcases hphase with ⟨n, hphase⟩ | hphase <;> rw [hphase] <;> rfl
  have hg : Good A levels False g := good_of_run h (fun h => by rw [hp] at h; cases h)
    (not_idle_of_open hopen)
  have hrebuild := hg.rebuilds hopen
  refine Trace.reach (C := fun _ a => a.IsFrame) (hrebuild.recovering hg.run hp hphase hnone hk hcover) (fun s h => h.pos.ne' rfl)
    ?_ hrun hframes hlength
  intro j s a s' hrec ha hs
  obtain ⟨today, n, rfl⟩ := ha
  obtain ⟨tr, hs⟩ := hs
  exact hrec.frame hd hrebuild.rebuilds hnone today.val n tr s' hs

theorem recovery_exact_crash : ∃ s, Recovered afterCrash s ∧
    s.run.history.length = afterCrash.run.history.length + 1 := by
  obtain ⟨l, hl⟩ := runs_rackGame none (some 2)
    [.command newYear (.input .slideStart), .frame newYear 4]
  have hphase : afterCrash.phase = .crashing 90 := by decide +kernel
  obtain ⟨s, _, hs⟩ := @recovery_exact _ _ _ _ _ _ _ hl (by decide +kernel) (.inl ⟨90, hphase⟩)
    (by decide +kernel) (by decide +kernel) 1 Nat.one_pos (by decide +kernel) _ _
    (trace_told 0 _ (List.replicate 92 (.frame newYear 1)))
    (fun p hp => ⟨newYear, 1, List.eq_of_mem_replicate (mem_of_visited hp)⟩) (by decide +kernel)
  refine ⟨s, hs, ?_⟩
  rw [hs.history, List.length_append]
  rfl

/-! ## 3. Crashes end -/

theorem replayTicks_within {m : ℕ} (n : ℕ) {r : Replayer} (b : RewindBuffer) (h : r.Within (m + n)) :
    (Game.replayTicks A levels n r b).Always fun x => x.1.Within m := by
  induction n generalizing r b with
  | zero => exact always_done.mpr h
  | succ n ih =>
      rw [Game.replayTicks]
      by_cases hdone : r.done = true
      · rw [if_pos hdone]
        refine always_done.mpr fun hmore => ?_
        rw [hdone] at hmore
        cases hmore
      · rw [if_neg hdone]
        have hnext : (r.advance A levels 1).Always fun r' => r'.Within (m + n) :=
          Replayer.Within.advance (k := 1) h
        exact hnext.bind fun r' hr' => ih _ hr'

theorem replayed_playing (state : GameState) (g : Game) :
    (Game.replayed A levels state g).Always fun g' => g'.phase = .playing := by
  unfold Game.replayed
  exact Always.bind (P := fun _ => True) (fun _ _ _ => trivial) fun x _ =>
    always_done.mpr (setPhase_phase _)

theorem incident_playing (i : ℕ) (state : GameState) (g : Game) :
    (Game.incident A levels i state g).Always fun g' => g'.phase = .playing := by
  unfold Game.incident
  refine Always.bind (P := fun g' => g'.phase = .playing) ?_ fun g' h => always_done.mpr h
  refine Always.bind (P := fun _ => True) (fun _ _ _ => trivial) fun x _ => always_done.mpr ?_
  rw [save_phase, setPhase_phase]
  rfl

/-- A crashed game that has at most `m` frames to go until it is played again. -/
structure Returning (A : Arith) (levels : LevelTable) (tick m : ℕ) (g : Game) : Prop where
  playback : g.playback = false
  durable : (levels g.run.start.level).durable = true
  crashTick : g.run.crashTick = tick
  soon : (∃ n k, g.phase = .crashing n ∧ 0 < k ∧ n + 1 + k ≤ m ∧
      tick ≤ k * Game.replaySpeed A tick) ∨
    g.phase = .replaying ∧ 0 < m ∧ ∃ r, g.run.replayer = some r ∧
      g.run.replayTicksPerFrame = Game.replaySpeed A tick ∧
      r.Within (m * Game.replaySpeed A tick)

theorem Returning.pos {tick m : ℕ} (h : Returning A levels tick m g) : 0 < m := by
  rcases h.soon with ⟨n, k, _, hk, hm, _⟩ | ⟨_, hm, _⟩
  · omega
  · exact hm

/-- **A frame brings play a frame nearer**, whatever the history and whatever it is told. -/
theorem Returning.frame {tick m : ℕ} (h : Returning A levels tick (m + 1) g) (today : Str) (n : ℕ) :
    (Game.frame A levels today n g).Always fun g' =>
      g'.phase = .playing ∨ Returning A levels tick m g' := by
  refine frame_live h.playback today n ?_
  unfold Game.frameBody
  rcases h.soon with ⟨j, k, hphase, hk, hm, hcover⟩ | ⟨hphase, _, r, hr, hspeed, hwithin⟩
  · rw [hphase]
    dsimp only
    split
    · exact always_done.mpr (.inr ⟨h.playback, h.durable, h.crashTick,
        .inl ⟨j - 1, k, rfl, hk, by omega, hcover⟩⟩)
    · refine always_done.mpr (.inr ⟨?_, ?_, ?_, .inr ⟨?_, by omega, ?_⟩⟩)
      all_goals
        unfold Game.startReplay
        rw [if_pos h.durable]
        dsimp only
      · exact (steady_kept.setPhase _ rfl).playback.trans h.playback
      · rw [setPhase_run]
        exact h.durable
      · rw [setPhase_run]
        exact h.crashTick
      · exact setPhase_phase _
      · rw [setPhase_run, h.crashTick]
        exact ⟨_, rfl, rfl,
          createReplayer_within (hcover.trans (Nat.mul_le_mul_right _ (by omega)))⟩
  · rw [hphase]
    dsimp only
    unfold Game.advanceReplay
    rw [hr]
    dsimp only
    rw [Nat.succ_mul] at hwithin
    refine (drawing_spec _ g).bind fun x hx => ?_
    obtain ⟨hd, t, ht⟩ := hx
    rw [hspeed] at ht
    have hnext := replayTicks_within _ _ hwithin t x.1 ht
    obtain ⟨⟨r', b'⟩, g₁⟩ := x
    obtain ⟨impure, chaos, source, rfl⟩ := hd.frame
    dsimp only at hnext ⊢
    by_cases hdone : r'.done = false
    · rw [if_pos hdone]
      refine always_done.mpr (.inr ⟨h.playback, h.durable, h.crashTick,
        .inr ⟨hphase, ?_, r', rfl, hspeed, hnext⟩⟩)
      refine Nat.pos_of_ne_zero fun h0 => ?_
      rw [h0, Nat.zero_mul] at hnext
      rw [hnext.done] at hdone
      cases hdone
    · rw [if_neg hdone]
      unfold Replayer.result
      split
      · exact (replayed_playing _ _).mono fun g' h => .inl h
      · exact (incident_playing _ _ _).mono fun g' h => .inl h

/-- **A crash ends**: whatever the history of a durable level and whatever its replay is told,
    frames alone bring the game back to live play. `k` frames of the replay are enough if they cover
    the tick of the crash. -/
theorem crash_ends {today : Day} {best : ℕ} {daily : Option (Str × ℕ)} {l : List (Game × Action)}
    (h : Runs A levels today best daily l g) (hp : g.playback = false)
    (hphase : (∃ n, g.phase = .crashing n) ∨ g.phase = .replaying)
    (hd : (levels g.run.start.level).durable = true) {k : ℕ} (hk : 0 < k)
    (hcover : g.run.crashTick ≤ k * Game.replaySpeed A g.run.crashTick)
    {frames : List (Game × Action)} {g' : Game} (hrun : Trace (Called A levels) g frames g')
    (hframes : ∀ p ∈ frames, p.2.IsFrame) (hlength : g.phase.crashLeft + k ≤ frames.length) :
    ∃ s, (s = g' ∨ s ∈ frames.map Prod.fst) ∧ s.phase = .playing := by
  have hstart : Returning A levels g.run.crashTick (g.phase.crashLeft + k) g := by
    refine ⟨hp, hd, rfl, ?_⟩
    rcases hphase with ⟨n, hphase⟩ | hphase
    · exact .inl ⟨n, k, hphase, hk, by rw [hphase, Phase.crashLeft], hcover⟩
    · have hg : Good A levels False g := good_of_run h (fun h => by rw [hp] at h; cases h)
        (by rw [hphase]; rfl)
      have hr := hg.run
      rw [hphase] at hr
      obtain ⟨⟨r, hreplayer, _, _, j, tr, hstage⟩, _, hspeed⟩ := hr
      have hleft : g.phase.crashLeft + k = k := by simp only [hphase, Phase.crashLeft, Nat.zero_add]
      rw [hleft]
      refine .inr ⟨hphase, hk, r, hreplayer, hspeed, ?_⟩
      have hcreate := @createReplayer_within A levels g.run.start g.run.history g.run.crashTick
        (k * Game.replaySpeed A g.run.crashTick + j) (hcover.trans (Nat.le_add_right _ _))
      exact hcreate.advance tr r hstage
  refine Trace.reach (C := fun _ a => a.IsFrame) hstart (fun s h => h.pos.ne' rfl) ?_ hrun hframes
    hlength
  intro j s a s' hret ha hs
  obtain ⟨today, n, rfl⟩ := ha
  obtain ⟨tr, hs⟩ := hs
  exact hret.frame today.val n tr s' hs

theorem crash_ends_crash : afterCrash.phase = .crashing 90 ∧
    ∃ l g, Trace (Called (.exact 4) (racksOnly none (some 2))) afterCrash l g ∧
      ∃ s, (s = g ∨ s ∈ l.map Prod.fst) ∧ s.phase = .playing := by
  obtain ⟨l, hl⟩ := runs_rackGame none (some 2)
    [.command newYear (.input .slideStart), .frame newYear 4]
  have hphase : afterCrash.phase = .crashing 90 := by decide +kernel
  have hframes := @trace_told (.exact 4) (racksOnly none (some 2)) 0 afterCrash
    (List.replicate 92 (.frame newYear 1))
  refine ⟨hphase, _, _, hframes, @crash_ends _ _ _ _ _ _ _ hl (by decide +kernel)
    (.inl ⟨90, hphase⟩) (by decide +kernel) 1 Nat.one_pos (by decide +kernel) _ _ hframes
    (fun p hp => ⟨newYear, 1, List.eq_of_mem_replicate (mem_of_visited hp)⟩) (by decide +kernel)⟩

end DevDashboard.Web.Replay
