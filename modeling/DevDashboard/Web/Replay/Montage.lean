/-
  File:      DevDashboard/Web/Replay/Montage.lean
  Subject:   THE MONTAGE OF A LEVEL (runtime/montage.ts).

  A level that is done is shown once more, segment after segment, some ticks in every frame. The
  frame that ends the replay of a segment opens the next one.

  * `Montage.advance_left` -- every frame brings a montage nearer to its end;
  * `MontageOk.moves_on` -- a montage comes to every segment, and leaves it in some frame;
  * `MontageOk.result` -- the frame that leaves a segment has replayed it to where live play closed
    it;
  * `montage_rebuilds` -- **both**, in every run.
-/
import DevDashboard.Web.Replay.Recovery

namespace DevDashboard.Web.Replay

open Lib Asking

variable {A : Arith} {levels : LevelTable} {g : Game}

/-! ## 1. Frames -/

/-- Ticks end a replay or bring it on. -/
theorem Replayer.advance_progress {n : ℕ} (hn : 0 < n) (r : Replayer) :
    (r.advance A levels n).Always fun r' => r'.done = true ∨
      r'.toTick = r.toTick ∧ r.state.tick < r'.state.tick ∧ r'.state.tick < r'.toTick := by
  induction n generalizing r with
  | zero => exact absurd hn (lt_irrefl 0)
  | succ n ih =>
      rw [Replayer.advance]
      split
      · exact always_done.mpr (.inl ‹_›)
      · refine (r.advance1_progress).bind fun r₁ h => ?_
        obtain ⟨hto, hnext⟩ := h
        rcases hnext with hdone | ⟨htick, hlt⟩
        · rw [Replayer.advance_of_done hdone]
          exact always_done.mpr (.inl hdone)
        · rcases Nat.eq_zero_or_pos n with rfl | hn'
          · exact always_done.mpr (.inr ⟨hto, by omega, hlt⟩)
          · refine (ih hn' r₁).mono fun r' h' => h'.imp_right fun h' => ?_
            obtain ⟨hto', htick', hlt'⟩ := h'
            exact ⟨hto'.trans hto, by omega, hlt'⟩

/-- The ticks a montage has left at most. -/
def Montage.left (m : Montage) : ℕ :=
  (if m.replayer.done then 0 else m.replayer.toTick - m.replayer.state.tick) +
    ((m.segments.drop (m.index + 1)).map fun seg => seg.endTick + 1).sum

/-- **A frame brings a montage on.** -/
theorem Montage.advance_left {m : Montage} (hm : 0 < m.ticksPerFrame) (hdone : m.isDone = false) :
    (m.advance A levels).isDone = true ∨ (m.advance A levels).left < m.left := by
  obtain ⟨tr, hr⟩ := answer_gives shift (m.replayer.advance A levels m.ticksPerFrame) m.queue
  have hprogress := m.replayer.advance_progress hm tr _ hr
  unfold Montage.advance
  rw [hdone, if_neg (by decide)]
  dsimp only
  generalize (m.replayer.advance A levels m.ticksPerFrame).answer shift m.queue = x at hr hprogress
  by_cases hmore : x.1.done = false
  · rw [if_pos hmore]
    right
    obtain ⟨hto, htick, hlt⟩ := hprogress.resolve_left (by rw [hmore]; decide)
    have hopen : m.replayer.done = false := by
      by_contra h
      rw [Replayer.advance_of_done (by simpa using h)] at hr
      rw [(gives_done.mp hr).2] at hmore
      exact h hmore
    unfold Montage.left
    dsimp only
    rw [hmore, hopen, if_neg (by decide), if_neg (by decide)]
    omega
  · rw [if_neg hmore]
    cases hseg : m.segments[m.index + 1]? with
    | none =>
        left
        exact decide_eq_true (List.getElem?_eq_none_iff.mp hseg)
    | some seg =>
        right
        obtain ⟨hlt, hget⟩ := List.getElem?_eq_some_iff.mp hseg
        have hdrop : m.segments.drop (m.index + 1) = seg :: m.segments.drop (m.index + 1 + 1) := by
          rw [List.drop_eq_getElem_cons hlt, hget]
        have hfresh : (if (openSegment A levels seg).1.done then 0
            else (openSegment A levels seg).1.toTick - (openSegment A levels seg).1.state.tick) ≤
              seg.endTick := by
          split
          · exact Nat.zero_le _
          · exact Nat.sub_le _ _
        unfold Montage.left
        dsimp only
        rw [hdrop, List.map_cons, List.sum_cons]
        omega

namespace Montage

variable (A levels) in
/-- The montage after `n` frames. -/
def frames (n : ℕ) (m : Montage) : Montage := (Montage.advance A levels)^[n] m

variable (A levels) in
/-- The replayer that the next frame leads to, and draws. -/
def shown (m : Montage) : Replayer :=
  ((m.replayer.advance A levels m.ticksPerFrame).answer shift m.queue).1

variable {m : Montage}

theorem frames_succ (n : ℕ) : m.frames A levels (n + 1) = (m.frames A levels n).advance A levels :=
  Function.iterate_succ_apply' _ _ _

theorem advance_segments (m : Montage) : (m.advance A levels).segments = m.segments := by
  unfold advance
  split
  · rfl
  · dsimp only
    split
    · rfl
    · split <;> rfl

theorem frames_segments (n : ℕ) (m : Montage) : (m.frames A levels n).segments = m.segments := by
  induction n with
  | zero => rfl
  | succ n ih => rw [frames_succ, advance_segments, ih]

/-- **Where a frame leaves a montage**: one segment on, exactly if it has ended the replay. -/
theorem advance_index (hdone : m.isDone = false) :
    (m.advance A levels).index = m.index + if (m.shown A levels).done then 1 else 0 := by
  unfold advance shown
  rw [hdone, if_neg (by decide)]
  dsimp only
  generalize (m.replayer.advance A levels m.ticksPerFrame).answer shift m.queue = x
  cases hx : x.1.done with
  | false => rfl
  | true =>
      rw [if_neg (by decide), if_pos rfl]
      split <;> rfl

end Montage

theorem MontageOk.frames {strict : Prop} {m : Montage} (h : MontageOk A levels strict m) (n : ℕ) :
    MontageOk A levels strict (m.frames A levels n) := by
  induction n with
  | zero => exact h
  | succ n ih =>
      rw [Montage.frames_succ]
      exact ih.advance

/-- **A montage comes to every segment that is ahead, and leaves it in some frame.** -/
theorem MontageOk.moves_on {strict : Prop} {m : Montage} (h : MontageOk A levels strict m) {i : ℕ}
    (hi : m.index ≤ i) (hlt : i < m.segments.length) :
    ∃ n, (m.frames A levels n).index = i ∧ (m.frames A levels (n + 1)).index = i + 1 := by
  -- on the ticks the montage has left
  induction hd : m.left using Nat.strong_induction_on generalizing m with
  | h d ih =>
      have hdone : m.isDone = false := decide_eq_false (by omega)
      have hindex : (m.advance A levels).index = _ := Montage.advance_index hdone
      by_cases hleave : (m.shown A levels).done = true ∧ m.index = i
      · rw [if_pos hleave.1] at hindex
        exact ⟨0, hleave.2, by rw [← hleave.2]; exact hindex⟩
      · have hi' : (m.advance A levels).index ≤ i := by
          rw [hindex]
          split <;> rename_i hs
          · have : m.index ≠ i := fun he => hleave ⟨hs, he⟩
            omega
          · exact hi
        have hseg : (m.advance A levels).segments = m.segments := Montage.advance_segments m
        have hopen : ¬ (m.advance A levels).isDone = true := by
          rw [Montage.isDone, decide_eq_true_eq, hseg]
          omega
        have hless := (Montage.advance_left h.paced hdone).resolve_left hopen
        obtain ⟨n, hn, hn'⟩ := ih _ (hd ▸ hless) h.advance hi' (by rw [hseg]; exact hlt) rfl
        exact ⟨n + 1, hn, hn'⟩

/-! ## 2. Where a segment ends -/

/-- The replay of a closed segment, told what was noted for its orbs. -/
theorem SegmentOk.replayed {strict : Prop} {seg : MontageSegment}
    (h : SegmentOk A levels strict seg) (htold : strict ∨ orbIds seg.history = []) :
    ∃ r queue, ((Montage.openSegment A levels seg).1.advance A levels seg.endTick).answer shift
        (Montage.openSegment A levels seg).2 = (r, queue) ∧ r.done = true ∧
      r.result = .ok seg.lived.state := by
  obtain ⟨⟨queued, hopen⟩, htick⟩ := h
  obtain ⟨⟨vs, hlength, hvs, hreplay⟩, _⟩ := hopen.rebuilds htick
  have hqueue : vs = orbQueue seg.history (JsMap.ofPairs seg.orbValues) := by
    rw [JsMap.ofPairs_eq_self hopen.keys]
    rcases htold with hstrict | hnone
    · exact hvs hstrict
    · rw [hnone] at hlength
      rw [List.length_eq_zero_iff.mp hlength, orbQueue, hnone, List.map_nil]
  obtain ⟨t, u, r, htu, hr, hres⟩ := gives_bind.mp hreplay
  obtain ⟨rfl, hok⟩ := gives_done.mp hres
  rw [List.append_nil] at htu
  subst htu
  have hans := @answer_queue Draw ℚ Replayer _ _ _ 0 [] hr
  have hmap : (vs.map fun v => (Draw.impure, v)).map Prod.snd ++ [] = vs := by
    rw [List.append_nil, List.map_map]
    exact List.map_id _
  rw [hmap, hqueue] at hans
  exact ⟨r, [], hans, replay_ends le_rfl _ r hr, hok.symm⟩

/-- **The frame that ends the replay of a segment** has brought it to where live play closed it:
    a replay that is done stands where all its ticks lead. -/
theorem MontageOk.result {strict : Prop} {m : Montage} (h : MontageOk A levels strict m)
    {seg : MontageSegment} (hseg : m.segments[m.index]? = some seg)
    (htold : strict ∨ orbIds seg.history = []) (hdone : (m.shown A levels).done = true) :
    (m.shown A levels).result = .ok seg.lived.state := by
  obtain ⟨k, hk⟩ := h.underWay seg hseg
  obtain ⟨r, queue, hr, hrdone, hok⟩ :=
    (h.segments seg (List.mem_of_getElem? hseg)).replayed htold
  generalize Montage.openSegment A levels seg = x at hk hr
  have hshown : ((x.1.advance A levels (k + m.ticksPerFrame)).answer shift x.2).1 =
      m.shown A levels := by
    rw [Replayer.advance_add, answer_bind, hk]
    rfl
  have hone : ((x.1.advance A levels (k + m.ticksPerFrame + seg.endTick)).answer shift x.2).1 =
      m.shown A levels := by
    rw [Replayer.advance_add, answer_bind, hshown, Replayer.advance_of_done hdone]
    rfl
  have hother : ((x.1.advance A levels (seg.endTick + (k + m.ticksPerFrame))).answer shift
      x.2).1 = r := by
    rw [Replayer.advance_add, answer_bind, hr, Replayer.advance_of_done hrdone]
    rfl
  rw [← hone, Nat.add_comm, hother, hok]

/-- **A montage shows what live play lived**: in every run its frames come to every segment that is
    ahead and leave it, and a frame that leaves a segment has replayed it to the state in which live
    play closed it; without orbs always, with orbs in a run in which every history that is replayed
    fixes its states. -/
theorem montage_rebuilds {today : Day} {best : ℕ} {daily : Option (Str × ℕ)}
    {l : List (Game × Action)} (h : Runs A levels today best daily l g) (hp : g.playback = false)
    {events : ℕ} (hphase : g.phase = .montage events) {m : Montage} (hm : g.run.montage = some m) :
    (∀ i, m.index ≤ i → i < m.segments.length →
      ∃ n, (m.frames A levels n).index = i ∧ (m.frames A levels (n + 1)).index = i + 1) ∧
    ∀ n seg, m.segments[(m.frames A levels n).index]? = some seg →
      (m.frames A levels (n + 1)).index = (m.frames A levels n).index + 1 →
      (orbIds seg.history = [] ∨ AllDetermined A levels l) →
      ((m.frames A levels n).shown A levels).result = .ok seg.lived.state := by
  have hok : ∀ strict : Prop, (strict → AllDetermined A levels l) → MontageOk A levels strict m := by
    intro strict hdet
    have hi : Inv A levels strict g := inv_of_run h hdet
    have hr := (hi.good (by rw [hphase]; rfl) fun h => by rw [hp] at h; cases h).run
    rw [hphase] at hr
    exact hr.2 m hm
  refine ⟨fun i => (hok False False.elim).moves_on, fun n seg hseg hnext htold => ?_⟩
  have hseg' : (m.frames A levels n).segments[(m.frames A levels n).index]? = some seg := by
    rwa [Montage.frames_segments]
  have hdone : ((m.frames A levels n).shown A levels).done = true := by
    have hmore : (m.frames A levels n).isDone = false :=
      decide_eq_false (not_le.mpr (List.getElem?_eq_some_iff.mp hseg').1)
    rw [Montage.frames_succ, Montage.advance_index hmore] at hnext
    by_contra hd
    rw [if_neg hd] at hnext
    omega
  rcases htold with hnone | hdet
  · exact ((hok False False.elim).frames n).result hseg' (.inr hnone) hdone
  · exact ((hok True fun _ => hdet).frames n).result hseg' (.inl trivial) hdone

/-- A level of twenty ticks with an orb in the fourth: of the three frames of its montage the last
    one ends it, where live play did. -/
theorem montage_rebuilds_orb : ∃ m seg, (orbGame (some 4000) 20).run.montage = some m ∧
    m.segments = [seg] ∧ orbIds seg.history = [1] ∧
    (m.frames (.exact 4) (orbsFast (some 4000)) 2).index = 0 ∧
    ((m.frames (.exact 4) (orbsFast (some 4000)) 2).shown (.exact 4) (orbsFast (some 4000))).result =
      .ok seg.lived.state := by
  obtain ⟨m, hm⟩ := Option.isSome_iff_exists.mp
    (show (orbGame (some 4000) 20).run.montage.isSome = true by decide +kernel)
  have hread : ∀ {α : Type} (f : Montage → α), (orbGame (some 4000) 20).run.montage.map f =
      some (f m) := fun f => by rw [hm]; rfl
  obtain ⟨seg, hseg⟩ := List.length_eq_one_iff.mp
    (Option.some.inj ((hread fun m => m.segments.length).symm.trans
      (show _ = some 1 by decide +kernel)))
  have horbs : [orbIds seg.history] = [[1]] := by
    have := (hread fun m => m.segments.map fun s => orbIds s.history).symm.trans
      (show _ = some [[1]] by decide +kernel)
    rw [hseg] at this
    exact Option.some.inj this
  have hindex : (m.frames (.exact 4) (orbsFast (some 4000)) 2).index = 0 ∧
      (m.frames (.exact 4) (orbsFast (some 4000)) (2 + 1)).index = 0 + 1 := by
    have := (hread fun m => ((m.frames (.exact 4) (orbsFast (some 4000)) 2).index,
      (m.frames (.exact 4) (orbsFast (some 4000)) 3).index)).symm.trans
      (show _ = some (0, 1) by decide +kernel)
    exact Prod.mk.inj (Option.some.inj this)
  have hlaw := (montage_rebuilds (runs_orbGame (some 4000) 20) (by decide +kernel)
    (show (orbGame (some 4000) 20).phase = .montage 1 by decide +kernel) hm).2 2 seg
    (by rw [hindex.1, hseg]; rfl) (by rw [hindex.1, hindex.2])
    (.inr (allDetermined_of_no_replay (by decide +kernel)))
  exact ⟨m, seg, hm, hseg, (List.cons.inj horbs).1, hindex.1, hlaw⟩

end DevDashboard.Web.Replay
