/-
  File:      DevDashboard/Web/Replay/Segment.lean
  Subject:   WHAT HOLDS OF A HISTORY SEGMENT WHILE LIVE PLAY EXTENDS IT AND CUTS IT BACK.

  A segment is open at a state (`OpenAt`): the events before the state's tick are a line that leads
  to it, the inputs that wait for the next tick stand behind them, and the retries are spent one by
  one at ever later ticks. The rewind buffer holds states the same history leads to (`BufferOk`).

  * `OpenAt.tick`, `BufferOk.tick` -- a tick extends the history and the orb values;
  * `retryTarget_spec` -- **a rewind never goes back to the last attempt**, and `OpenAt.rewind`
    -- cutting the history back to its target leaves an open segment;
  * `Follows.openAt` -- an accepted replay leaves one.

  In a strict account the line was told the values noted for its orbs. A replay asks for new
  values, so after it this holds only where the history admits no other state (`Determined`).
-/
import DevDashboard.Web.Replay.Game

namespace DevDashboard.Web.Replay

open Lib Asking

variable {A : Arith} {levels : LevelTable} {start : StartInput}

/-! ## 1. The events before a tick -/

/-- The events before a tick. -/
def before (n : ℕ) (history : List HistoryEvent) : List HistoryEvent :=
  history.filter fun e => decide (e.tick < n)

theorem mem_before {n : ℕ} {history : List HistoryEvent} {e : HistoryEvent} :
    e ∈ before n history ↔ e ∈ history ∧ e.tick < n := by
  simp [before]

theorem before_append (n : ℕ) (l m : List HistoryEvent) :
    before n (l ++ m) = before n l ++ before n m := List.filter_append ..

theorem before_eq_self {n : ℕ} {l : List HistoryEvent} (h : ∀ e ∈ l, e.tick < n) :
    before n l = l := List.filter_eq_self.mpr fun e he => decide_eq_true (h e he)

theorem before_eq_nil {n : ℕ} {l : List HistoryEvent} (h : ∀ e ∈ l, n ≤ e.tick) :
    before n l = [] := List.filter_eq_nil_iff.mpr fun e he => by simpa using h e he

theorem before_before {n k : ℕ} (h : n ≤ k) (l : List HistoryEvent) :
    before n (before k l) = before n l := by
  rw [before, before, List.filter_filter]
  refine List.filter_congr fun e _ => ?_
  by_cases he : e.tick < n
  · simp [he, he.trans_le h]
  · simp [he]

/-- Events that come later do not matter. -/
theorem before_append_of_le {n : ℕ} {l m : List HistoryEvent} (h : ∀ e ∈ m, n ≤ e.tick) :
    before n (l ++ m) = before n l := by
  rw [before_append, before_eq_nil h, List.append_nil]

theorem tick_of_mem_map_input {n : ℕ} {ins : List InputEvent} (h : ∀ e ∈ ins, e.tick = n) :
    ∀ e ∈ ins.map HistoryEvent.input, e.tick = n := by
  intro e he
  obtain ⟨i, hi, rfl⟩ := List.mem_map.mp he
  exact h i hi

theorem tick_of_mem_map_outcome {n : ℕ} {outs : List OutcomeEvent} (h : ∀ e ∈ outs, e.tick = n) :
    ∀ e ∈ outs.map HistoryEvent.outcome, e.tick = n := by
  intro e he
  obtain ⟨o, ho, rfl⟩ := List.mem_map.mp he
  exact h o ho

/-! ## 2. Orb values -/

theorem orbsOf_append (l m : List OutcomeEvent) : orbsOf (l ++ m) = orbsOf l ++ orbsOf m :=
  List.filterMap_append

theorem orbIds_append (l m : List HistoryEvent) : orbIds (l ++ m) = orbIds l ++ orbIds m := by
  rw [orbIds, outcomesOf_append, orbsOf_append, orbIds, orbIds]

theorem orbIds_input (ins : List InputEvent) : orbIds (ins.map .input) = [] := by
  rw [orbIds, outcomesOf_input, orbsOf, List.filterMap_nil]

theorem orbIds_outcome (outs : List OutcomeEvent) : orbIds (outs.map .outcome) = orbsOf outs := by
  rw [orbIds, outcomesOf_outcome]

theorem orbIds_sublist (history : List HistoryEvent) :
    (orbIds history).Sublist (picked history) := by
  rw [orbIds, orbsOf, picked, pickIds, List.filterMap_map]
  induction outcomesOf history with
  | nil => exact List.Sublist.refl _
  | cons e outs ih =>
      obtain ⟨tick, hash, what⟩ := e
      cases what with
      | orbTaken id => exact ih.cons_cons id
      | activityCrateCollected id result => exact ih.cons id
      | activityCoinCollected id => exact ih
      | circuitBreakerTripped id => exact ih
      | boostLost id => exact ih
      | fanOut => exact ih
      | fanIn results => exact ih

theorem orbQueue_append (l m : List HistoryEvent) (values : List (ℕ × ℚ)) :
    orbQueue (l ++ m) values = orbQueue l values ++ orbQueue m values := by
  rw [orbQueue, orbIds_append, List.map_append, orbQueue, orbQueue]

theorem length_orbQueue (history : List HistoryEvent) (values : List (ℕ × ℚ)) :
    (orbQueue history values).length = (orbIds history).length := List.length_map _

theorem orbQueue_congr {history : List HistoryEvent} {values values' : List (ℕ × ℚ)}
    (h : ∀ id ∈ picked history, values'.lookup id = values.lookup id) :
    orbQueue history values' = orbQueue history values :=
  List.map_congr_left fun id hid => by rw [h id ((orbIds_sublist history).subset hid)]

/-- **What a tick notes**: its orbs find what they were told, and all others what they had. -/
theorem noteOrbs_spec {evs : List Outcome} {tr : List (Port × ℚ)} (h : Asked evs tr)
    (hids : (pickIds evs).Nodup) (tick : ℕ) (hash : BitVec 32) (values : List (ℕ × ℚ)) :
    (∀ k ∉ pickIds evs, (Game.noteOrbs (evs.map fun what => ⟨tick, hash, what⟩) (tr.map Prod.snd)
      values).lookup k = values.lookup k) ∧
    (orbsOf (evs.map fun what => ⟨tick, hash, what⟩)).map (fun id =>
      ((Game.noteOrbs (evs.map fun what => ⟨tick, hash, what⟩) (tr.map Prod.snd)
        values).lookup id).getD 0) = orbAnswers tr := by
  induction h generalizing values with
  | nil => exact ⟨fun _ _ => rfl, rfl⟩
  | orb id v h ih =>
      obtain ⟨hid, hids⟩ := List.nodup_cons.mp hids
      obtain ⟨hkeep, htold⟩ := ih hids (JsMap.set id v values)
      refine ⟨fun k hk => ?_, ?_⟩
      · have hne : k ≠ id := fun he => hk (by rw [he]; exact List.mem_cons_self)
        refine (hkeep k fun hm => hk (List.mem_cons_of_mem _ hm)).trans ?_
        rw [JsMap.lookup_set, if_neg hne]
      · refine congrArg₂ List.cons ?_ htold
        have hv := hkeep id hid
        rw [JsMap.lookup_set, if_pos rfl] at hv
        exact congrArg (Option.getD · 0) hv
  | crate id v h ih =>
      obtain ⟨hid, hids⟩ := List.nodup_cons.mp hids
      obtain ⟨hkeep, htold⟩ := ih hids values
      exact ⟨fun k hk => hkeep k fun hm => hk (List.mem_cons_of_mem _ hm), htold⟩
  | @other ev hev evs tr h ih =>
      have hpick : pickIds (ev :: evs) = pickIds evs := List.filterMap_cons_none hev
      rw [hpick] at hids ⊢
      obtain ⟨hkeep, htold⟩ := ih hids values
      cases ev with
      | orbTaken id => cases hev
      | activityCrateCollected id result => cases hev
      | activityCoinCollected id => exact ⟨hkeep, htold⟩
      | circuitBreakerTripped id => exact ⟨hkeep, htold⟩
      | boostLost id => exact ⟨hkeep, htold⟩
      | fanOut => exact ⟨hkeep, htold⟩
      | fanIn results => exact ⟨hkeep, htold⟩

theorem nodup_noteOrbs (events : List OutcomeEvent) (calls : List ℚ) {values : List (ℕ × ℚ)}
    (h : (values.map Prod.fst).Nodup) : ((Game.noteOrbs events calls values).map Prod.fst).Nodup := by
  induction events generalizing calls values with
  | nil => exact h
  | cons e events ih =>
      rw [Game.noteOrbs]
      split
      · exact ih _ (JsMap.nodup_set h _ _)
      · exact ih _ h
      · exact ih _ h

/-! ## 3. Lines, once more -/

/-- A program's transcript is fixed by what crates and orbs were told. -/
theorem transcript_unique {α : Type} {p : Asking Port ℚ α} {tr tr' : List (Port × ℚ)} {a b : α}
    (h : p.Gives tr a) (h' : p.Gives tr' b) (hcrates : crateAnswers tr = crateAnswers tr')
    (horbs : orbAnswers tr = orbAnswers tr') : tr = tr' := by
  induction h generalizing tr' with
  | done a => exact (gives_done.mp h').1.symm
  | @ask q next v tl a h ih =>
      obtain ⟨v', tl', rfl, hnext⟩ := gives_ask.mp h'
      cases q with
      | impure =>
          obtain ⟨hv, htl⟩ := List.cons.inj horbs
          obtain rfl : v = v' := hv
          rw [ih hnext hcrates htl]
      | crateValue id =>
          obtain ⟨hv, htl⟩ := List.cons.inj hcrates
          obtain rfl : v = v' := congrArg Prod.snd hv
          rw [ih hnext htl horbs]

theorem Asked.length_orbs {evs : List Outcome} {tr : List (Port × ℚ)} (h : Asked evs tr)
    (tick : ℕ) (hash : BitVec 32) :
    (orbAnswers tr).length = (orbsOf (evs.map fun what => ⟨tick, hash, what⟩)).length := by
  induction h with
  | nil => rfl
  | orb id v _ ih => exact congrArg (· + 1) ih
  | crate id v _ ih => exact ih
  | @other ev hev evs tr _ ih =>
      cases ev with
      | orbTaken id => cases hev
      | activityCrateCollected id result => cases hev
      | activityCoinCollected id => exact ih
      | circuitBreakerTripped id => exact ih
      | boostLost id => exact ih
      | fanOut => exact ih
      | fanIn results => exact ih

/-- The orbs of events that match are the same ones. -/
theorem orbsOf_of_match {expected actual : List OutcomeEvent}
    (h : eventsMatch expected actual = true) : orbsOf expected = orbsOf actual := by
  have hone : ∀ {e a : OutcomeEvent}, e.same a = true → orbsOf [e] = orbsOf [a] := by
    rintro ⟨tick, hash, what⟩ ⟨tick', hash', what'⟩ h
    simp only [OutcomeEvent.same, Bool.and_eq_true, decide_eq_true_eq] at h
    obtain ⟨⟨htype, hid⟩, -⟩ := h
    cases what <;> cases what' <;> simp_all [Outcome.sameType, orbsOf, Outcome.id]
  induction expected generalizing actual with
  | nil =>
      cases actual with
      | nil => rfl
      | cons a actual => simp [eventsMatch] at h
  | cons e expected ih =>
      cases actual with
      | nil => simp [eventsMatch] at h
      | cons a actual =>
          simp only [eventsMatch, Bool.and_eq_true] at h
          rw [← List.singleton_append, orbsOf_append, hone h.1, ih h.2, ← orbsOf_append,
            List.singleton_append]

/-- A line was told one value for each of its orbs. -/
theorem Line.length {H : List HistoryEvent} {vs : List ℚ} {s : GameState}
    (h : Line A levels start H vs s) : vs.length = (orbIds H).length := by
  induction h with
  | nil => rfl
  | @tick H vs s h hs ins outs hins houts tr r hstep hgo hmatch hcrates ih =>
      obtain ⟨evs, hask, hevents⟩ := (step_gives hs hstep).events
      rw [orbIds_append, orbIds_append, orbIds_input, orbIds_outcome, List.append_nil,
        List.length_append, List.length_append, ih, orbsOf_of_match hmatch, hevents,
        hask.length_orbs s.tick (hashState A r.state)]

/-- The events of a tick come after those before it. -/
theorem before_chunk {n : ℕ} {H : List HistoryEvent} {ins : List InputEvent}
    {outs : List OutcomeEvent} (hH : ∀ e ∈ H, e.tick < n) (hins : ∀ e ∈ ins, e.tick = n)
    (houts : ∀ e ∈ outs, e.tick = n) : before n (H ++ ins.map .input ++ outs.map .outcome) = H := by
  rw [before_append_of_le fun e he => (tick_of_mem_map_outcome houts e he).ge,
    before_append_of_le fun e he => (tick_of_mem_map_input hins e he).ge, before_eq_self hH]

/-- **The states a line passes through**, each with its part of the values. -/
theorem Line.at_ {H : List HistoryEvent} {vs : List ℚ} {s : GameState}
    (h : Line A levels start H vs s) {n : ℕ} (hn : n ≤ s.tick) :
    ∃ vs₁ vs₂ tl s', vs = vs₁ ++ vs₂ ∧ H = before n H ++ tl ∧
      Line A levels start (before n H) vs₁ s' ∧ s'.tick = n ∧ (n < s.tick → s'.status = .running) := by
  induction h with
  | nil =>
      refine ⟨[], [], [], _, rfl, rfl, .nil, (Nat.le_zero.mp hn).symm, fun _ => rfl⟩
  | @tick H vs s h hs ins outs hins houts tr r hstep hgo hmatch hcrates ih =>
      have st := step_gives hs hstep
      rw [st.tick] at hn ⊢
      have hnew : ∀ e ∈ ins.map HistoryEvent.input ++ outs.map .outcome, e.tick = s.tick := by
        intro e he
        rcases List.mem_append.mp he with he | he
        · exact tick_of_mem_map_input hins e he
        · exact tick_of_mem_map_outcome houts e he
      have hcut : n ≤ s.tick →
          before n (H ++ ins.map .input ++ outs.map .outcome) = before n H := by
        intro hle
        rw [List.append_assoc, before_append_of_le fun e he => hle.trans (hnew e he).ge]
      rcases Nat.le_succ_iff.mp hn with hle | rfl
      · rw [hcut hle]
        rcases hle.lt_or_eq with hlt | rfl
        · obtain ⟨vs₁, vs₂, tl, s', hvs, hH, hl, htick, hrun⟩ := ih hle
          refine ⟨vs₁, vs₂ ++ orbAnswers tr, tl ++ (ins.map .input ++ outs.map .outcome), s', ?_, ?_,
            hl, htick, fun _ => hrun hlt⟩
          · rw [hvs, List.append_assoc]
          · rw [← List.append_assoc, ← hH, List.append_assoc]
        · rw [before_eq_self h.facts.ticks]
          exact ⟨vs, orbAnswers tr, _, s, rfl, List.append_assoc _ _ _, h, rfl, fun _ => hs⟩
      · have hall : before (s.tick + 1) (H ++ ins.map .input ++ outs.map .outcome) =
            H ++ ins.map .input ++ outs.map .outcome := by
          refine before_eq_self fun e he => ?_
          rw [← st.tick]
          exact (Line.tick h hs hins houts hstep hgo hmatch hcrates).facts.ticks e he
        rw [hall]
        exact ⟨_, [], [], r.state, (List.append_nil _).symm, (List.append_nil _).symm,
          .tick h hs hins houts hstep hgo hmatch hcrates, st.tick, fun h => absurd h (lt_irrefl _)⟩

/-- **History and values fix the state.** -/
theorem Line.unique {H : List HistoryEvent} {vs : List ℚ} {s s' : GameState}
    (h : Line A levels start H vs s) (h' : Line A levels start H vs s') (ht : s.tick = s'.tick) :
    s = s' := by
  -- The second line, with its indices free.
  have hgo : ∀ {H' vs' s'}, Line A levels start H' vs' s' → H' = H → vs' = vs → s.tick = s'.tick →
      s = s' := by
    clear h' ht
    induction h with
    | nil =>
        intro H' vs' s' h' hH hvs ht
        cases h' with
        | nil => rfl
        | @tick H vs t h ht' ins outs hins houts tr r hstep hgo hmatch hcrates =>
            rw [(step_gives ht' hstep).tick] at ht
            exact absurd ht (Nat.succ_ne_zero _).symm
    | @tick H vs s h hs ins outs hins houts tr r hstep hgo hmatch hcrates ih =>
        intro H' vs' s' h' hH hvs ht
        have st := step_gives hs hstep
        cases h' with
        | nil =>
            rw [st.tick] at ht
            exact absurd ht (Nat.succ_ne_zero _)
        | @tick H₂ vs₂ s₂ h₂ hs₂ ins₂ outs₂ hins₂ houts₂ tr₂ r₂ hstep₂ hgo₂ hmatch₂ hcrates₂ =>
            rw [st.tick, (step_gives hs₂ hstep₂).tick, Nat.succ_inj] at ht
            have hpre : H₂ = H := by
              rw [← before_chunk h.facts.ticks hins houts, ← hH,
                before_chunk (by rw [ht]; exact h₂.facts.ticks) (by rw [ht]; exact hins₂)
                  (by rw [ht]; exact houts₂)]
            subst hpre
            rw [List.append_assoc, List.append_assoc, List.append_cancel_left_eq] at hH
            have hins : ins₂ = ins := by simpa using congrArg inputsOf hH
            have houts : outs₂ = outs := by simpa using congrArg outcomesOf hH
            obtain ⟨hvs, horbs⟩ := List.append_inj hvs (h₂.length.trans h.length.symm)
            obtain rfl := ih h₂ rfl hvs ht
            subst hins
            subst houts
            obtain rfl := transcript_unique hstep hstep₂ (hcrates.trans hcrates₂.symm) horbs.symm
            rw [hstep.unique hstep₂]
  exact hgo h' rfl rfl ht

/-- A history that fixes its states: no other orb values report the same and lead elsewhere. -/
def Determined (A : Arith) (levels : LevelTable) (start : StartInput)
    (history : List HistoryEvent) : Prop :=
  ∀ n vs vs' s s', Line A levels start (before n history) vs s →
    Line A levels start (before n history) vs' s' → s.tick = n → s'.tick = n → s = s'

/-- **Without orbs** there is nothing but the history. -/
theorem determined_of_no_orbs {history : List HistoryEvent} (h : orbIds history = []) :
    Determined A levels start history := by
  intro n vs vs' s s' hl hl' hs hs'
  have hnone : orbIds (before n history) = [] := by
    have hsub : (orbIds (before n history)).Sublist (orbIds history) :=
      (List.filter_sublist.filterMap _).filterMap _
    rw [h] at hsub
    exact List.sublist_nil.mp hsub
  have hnil : ∀ {us : List ℚ}, us.length = (orbIds (before n history)).length → us = [] := by
    intro us hus
    rw [hnone] at hus
    exact List.length_eq_zero_iff.mp hus
  rw [hnil hl.length] at hl
  rw [hnil hl'.length] at hl'
  exact hl.unique hl' (hs.trans hs'.symm)

/-! ## 4. Open segments -/

/-- The ticks of the attempts in a history. -/
def retryTicks (history : List HistoryEvent) : List ℕ :=
  ((inputsOf history).filter fun e => decide (inputOf e = .retry)).map InputEvent.tick

theorem retryTicks_append (l m : List HistoryEvent) :
    retryTicks (l ++ m) = retryTicks l ++ retryTicks m := by
  simp [retryTicks]

theorem retryTicks_outcome (outs : List OutcomeEvent) : retryTicks (outs.map .outcome) = [] := by
  simp [retryTicks]

theorem retryTicks_of_not_mem {ins : List InputEvent} (h : .retry ∉ ins.map inputOf) :
    retryTicks (ins.map .input) = [] := by
  rw [retryTicks, inputsOf_input, List.map_eq_nil_iff, List.filter_eq_nil_iff]
  intro e he hretry
  exact h (List.mem_map.mpr ⟨e, he, by simpa using hretry⟩)

theorem attempts_eq_length (history : List HistoryEvent) :
    attempts history = (retryTicks history).length := by
  rw [attempts, retryTicks, List.length_map, List.count_eq_countP, List.countP_map,
    List.countP_eq_length_filter]
  congr 1

theorem tick_of_mem_retryTicks {history : List HistoryEvent} {n : ℕ} (h : n ∈ retryTicks history) :
    ∃ e ∈ history, e.tick = n := by
  rw [retryTicks, List.mem_map] at h
  obtain ⟨i, hi, rfl⟩ := h
  obtain ⟨e, he, hei⟩ := List.mem_filterMap.mp (List.mem_filter.mp hi).1
  cases e with
  | input e =>
      cases hei
      exact ⟨_, he, rfl⟩
  | outcome e => cases hei

section

variable (A levels) (strict : Prop)

/-- Ticks that reported what `H` records lead to `s`; in a strict account, with the orbs told the
    values noted for them. -/
def Reached (start : StartInput) (values : List (ℕ × ℚ)) (H : List HistoryEvent) (s : GameState) :
    Prop :=
  ∃ vs, Line A levels start H vs s ∧ (strict → vs = orbQueue H values)

/-- A segment that is open at the state live play came to last: the events before its tick lead to
    it, `queued` waits for the next tick, and every retry came later than the one before. -/
structure OpenAt (start : StartInput) (history : List HistoryEvent) (values : List (ℕ × ℚ))
    (queued : List InputEvent) (lived : Lived) : Prop where
  line : Reached A levels strict start values (before lived.state.tick history) lived.state
  split : history = before lived.state.tick history ++ queued.map .input
  queued : ∀ e ∈ queued, e.tick = lived.state.tick
  retried : (retryTicks history).Pairwise (· < ·)
  spent : attempts history ≤ start.retries
  rewinds : lived.rewinds = attempts history
  keys : (values.map Prod.fst).Nodup

/-- A rewind buffer of states the history leads to, up to `s`. -/
structure BufferOk (start : StartInput) (history : List HistoryEvent) (values : List (ℕ × ℚ))
    (s : GameState) (b : RewindBuffer) : Prop where
  anchor : ∀ a ∈ b.anchor, a.tick = 0
  here : s ∈ b.all
  states : ∀ c ∈ b.all, c.tick ≤ s.tick ∧ c.status = .running ∧
    Reached A levels strict start values (before c.tick history) c

end

variable {strict : Prop} {history : List HistoryEvent} {values : List (ℕ × ℚ)}

/-! ## 5. A tick of live play -/

section

variable {H : List HistoryEvent} {vs : List ℚ} {s : GameState} {ins : List InputEvent}
  {tr : List (Port × ℚ)} {r : StepResult}

/-- A tick's own events continue its line. -/
theorem Line.live (h : Line A levels start H vs s) (hs : s.status = .running)
    (hins : ∀ e ∈ ins, e.tick = s.tick) (hstep : (step A levels s (ins.map inputOf)).Gives tr r)
    (hgo : r.state.status = .running ∨ r.state.status = .levelDone) :
    Line A levels start (H ++ ins.map .input ++ r.events.map .outcome) (vs ++ orbAnswers tr)
      r.state := by
  obtain ⟨evs, hask, hevents⟩ := (step_gives hs hstep).events
  refine .tick h hs hins ?_ hstep hgo (eventsMatch_refl _) ?_
  · intro e he
    rw [hevents] at he
    obtain ⟨what, _, rfl⟩ := List.mem_map.mp he
    rfl
  · rw [hevents]
    exact hask.crates _ _

/-- A tick picks up what the line before it did not. -/
theorem Line.live_picks (h : Line A levels start H vs s) (hs : s.status = .running)
    (hins : ∀ e ∈ ins, e.tick = s.tick) (hstep : (step A levels s (ins.map inputOf)).Gives tr r)
    (hgo : r.state.status = .running ∨ r.state.status = .levelDone) :
    (pickIds (r.events.map OutcomeEvent.what)).Nodup ∧
      ∀ id ∈ picked H, id ∉ pickIds (r.events.map OutcomeEvent.what) := by
  have hids := (h.live hs hins hstep hgo).facts.ids
  rw [picked_append, picked_append, picked_input, picked_outcome, List.append_nil,
    List.append_assoc, List.nodup_append, List.nodup_append] at hids
  exact ⟨hids.2.1.1, fun id hid hmem => hids.2.2 id hid id (List.mem_append_left _ hmem) rfl⟩

/-- What a tick notes of its orbs, it adds to what was noted before. -/
theorem noted (hs : s.status = .running) (hstep : (step A levels s (ins.map inputOf)).Gives tr r)
    (hids : (pickIds (r.events.map OutcomeEvent.what)).Nodup) (values : List (ℕ × ℚ)) :
    (∀ k ∉ pickIds (r.events.map OutcomeEvent.what),
      (Game.noteOrbs r.events (tr.map Prod.snd) values).lookup k = values.lookup k) ∧
    orbQueue (r.events.map .outcome) (Game.noteOrbs r.events (tr.map Prod.snd) values) =
      orbAnswers tr := by
  obtain ⟨evs, hask, hevents⟩ := (step_gives hs hstep).events
  have hwhat : r.events.map OutcomeEvent.what = evs := by
    rw [hevents, List.map_map]
    exact List.map_id _
  rw [hwhat] at hids ⊢
  rw [orbQueue, orbIds_outcome, hevents]
  exact noteOrbs_spec hask hids _ _ _

theorem Reached.live (h : Reached A levels strict start values H s) (hs : s.status = .running)
    (hins : ∀ e ∈ ins, e.tick = s.tick) (hstep : (step A levels s (ins.map inputOf)).Gives tr r)
    (hgo : r.state.status = .running ∨ r.state.status = .levelDone) :
    Reached A levels strict start (Game.noteOrbs r.events (tr.map Prod.snd) values)
      (H ++ ins.map .input ++ r.events.map .outcome) r.state := by
  obtain ⟨vs, hl, htold⟩ := h
  obtain ⟨hnodup, hnew⟩ := hl.live_picks hs hins hstep hgo
  obtain ⟨hkeep, hnoted⟩ := noted hs hstep hnodup values
  refine ⟨_, hl.live hs hins hstep hgo, fun hstrict => ?_⟩
  rw [orbQueue_append, orbQueue_append, hnoted, orbQueue_congr fun id hid => hkeep id (hnew id hid),
    ← htold hstrict, orbQueue, orbIds_input, List.map_nil, List.append_nil]

end

/-- The inputs of a tick: what waits, then what the player presses. -/
def inputsAt (n : ℕ) (queued : List InputEvent) (pressed : List PlayerInput) : List InputEvent :=
  queued ++ pressed.map fun k => ⟨n, .input k⟩

theorem map_inputsAt (n : ℕ) (queued : List InputEvent) (pressed : List PlayerInput) :
    (inputsAt n queued pressed).map inputOf = queued.map inputOf ++ pressed.map .player := by
  simp [inputsAt, inputOf]

theorem tick_of_mem_inputsAt {n : ℕ} {queued : List InputEvent} (h : ∀ e ∈ queued, e.tick = n)
    (pressed : List PlayerInput) : ∀ e ∈ inputsAt n queued pressed, e.tick = n := by
  intro e he
  rcases List.mem_append.mp he with he | he
  · exact h e he
  · obtain ⟨k, _, rfl⟩ := List.mem_map.mp he
    rfl

theorem retryTicks_pressed (n : ℕ) (pressed : List PlayerInput) :
    retryTicks (pressed.map fun k => .input ⟨n, .input k⟩) = [] := by
  have := @retryTicks_of_not_mem (pressed.map fun k => ⟨n, .input k⟩) (by simp [inputOf])
  rwa [List.map_map] at this

section

variable {queued : List InputEvent} {lived : Lived} {pressed : List PlayerInput}
  {tr : List (Port × ℚ)} {r : StepResult}

/-- The history after a tick. -/
def afterTick (history : List HistoryEvent) (n : ℕ) (pressed : List PlayerInput)
    (r : StepResult) : List HistoryEvent :=
  history ++ pressed.map (fun k => .input ⟨n, .input k⟩) ++ r.events.map .outcome

theorem OpenAt.afterTick_eq (h : OpenAt A levels strict start history values queued lived)
    (pressed : List PlayerInput) (r : StepResult) :
    afterTick history lived.state.tick pressed r =
      before lived.state.tick history ++
        (inputsAt lived.state.tick queued pressed).map .input ++ r.events.map .outcome := by
  rw [afterTick, inputsAt, List.map_append, List.map_map]
  nth_rewrite 1 [h.split]
  simp only [List.append_assoc]
  rfl

/-- **A tick keeps a segment open** (or ends it). -/
theorem OpenAt.tick (h : OpenAt A levels strict start history values queued lived)
    (hs : lived.state.status = .running)
    (hstep : (step A levels lived.state (queued.map inputOf ++ pressed.map .player)).Gives tr r)
    (hgo : r.state.status = .running ∨ r.state.status = .levelDone) :
    OpenAt A levels strict start (afterTick history lived.state.tick pressed r)
      (Game.noteOrbs r.events (tr.map Prod.snd) values) [] { lived with state := r.state } := by
  rw [← map_inputsAt lived.state.tick] at hstep
  have hins := tick_of_mem_inputsAt h.queued pressed
  have hl := h.line.live hs hins hstep hgo
  have hretry : retryTicks (afterTick history lived.state.tick pressed r) = retryTicks history := by
    rw [afterTick, retryTicks_append, retryTicks_append, retryTicks_outcome, retryTicks_pressed,
      List.append_nil, List.append_nil]
  have hall : before r.state.tick (afterTick history lived.state.tick pressed r) =
      afterTick history lived.state.tick pressed r := by
    rw [h.afterTick_eq]
    obtain ⟨_, hl, _⟩ := hl
    exact before_eq_self hl.facts.ticks
  refine ⟨?_, ?_, fun e he => absurd he List.not_mem_nil, ?_, ?_, ?_, nodup_noteOrbs _ _ h.keys⟩
  · simp only
    rw [hall, h.afterTick_eq]
    exact hl
  · simp only
    rw [hall, List.map_nil, List.append_nil]
  · rw [hretry]
    exact h.retried
  · rw [attempts_eq_length, hretry, ← attempts_eq_length]
    exact h.spent
  · rw [attempts_eq_length, hretry, ← attempts_eq_length]
    exact h.rewinds

theorem mem_all_push {b : RewindBuffer} {s c : GameState} (h : c ∈ (b.push s).all) :
    c ∈ b.all ∨ c = s := by
  unfold RewindBuffer.push at h
  unfold RewindBuffer.all at h ⊢
  have hring : c ∈ b.ring ++ [s] → c ∈ b.ring ∨ c = s := by
    intro hc
    exact (List.mem_append.mp hc).imp_right List.mem_singleton.mp
  by_cases hlong : rewindBufferTicks < (b.ring ++ [s]).length
  · rw [if_pos hlong, if_pos rfl] at h
    refine (hring (List.mem_of_mem_tail h)).imp_left fun hc => ?_
    split
    · exact hc
    · exact List.mem_append_right _ hc
  · rw [if_neg hlong] at h
    simp only at h
    split at h
    · rename_i hwrapped
      rw [if_pos hwrapped]
      exact hring h
    · rename_i hwrapped
      rw [if_neg hwrapped, List.mem_append, or_assoc]
      exact (List.mem_append.mp h).imp_right hring

theorem self_mem_push (b : RewindBuffer) (s : GameState) : s ∈ (b.push s).all := by
  unfold RewindBuffer.push RewindBuffer.all
  by_cases hlong : rewindBufferTicks < (b.ring ++ [s]).length
  · rw [if_pos hlong, if_pos rfl]
    cases hring : b.ring with
    | nil =>
        rw [hring] at hlong
        exact absurd hlong (by simp [rewindBufferTicks])
    | cons c ring => simp
  · rw [if_neg hlong]
    split
    · simp
    · simp

theorem anchor_push (b : RewindBuffer) (s : GameState) : (b.push s).anchor = b.anchor := by
  unfold RewindBuffer.push
  dsimp only
  split <;> rfl

theorem picked_before_sublist {n k : ℕ} (h : n ≤ k) (history : List HistoryEvent) :
    (picked (before n history)).Sublist (picked (before k history)) := by
  rw [← before_before h]
  exact ((List.filter_sublist.filterMap _).map _).filterMap _

theorem Reached.congr {H : List HistoryEvent} {s : GameState} {values' : List (ℕ × ℚ)}
    (h : Reached A levels strict start values H s)
    (hv : ∀ id ∈ picked H, values'.lookup id = values.lookup id) :
    Reached A levels strict start values' H s := by
  obtain ⟨vs, hl, htold⟩ := h
  exact ⟨vs, hl, fun hstrict => by rw [orbQueue_congr hv, htold hstrict]⟩

/-- **A tick and the buffer.** -/
theorem BufferOk.tick {b : RewindBuffer}
    (hb : BufferOk A levels strict start history values lived.state b)
    (h : OpenAt A levels strict start history values queued lived)
    (hs : lived.state.status = .running)
    (hstep : (step A levels lived.state (queued.map inputOf ++ pressed.map .player)).Gives tr r)
    (hgo : r.state.status = .running) :
    BufferOk A levels strict start (afterTick history lived.state.tick pressed r)
      (Game.noteOrbs r.events (tr.map Prod.snd) values) r.state (b.push r.state) := by
  have hopen := h.tick hs hstep (.inl hgo)
  rw [← map_inputsAt lived.state.tick] at hstep
  have st := step_gives hs hstep
  have hins := tick_of_mem_inputsAt h.queued pressed
  refine ⟨by rw [anchor_push]; exact hb.anchor, self_mem_push b r.state, fun c hc => ?_⟩
  rcases mem_all_push hc with hc | rfl
  · obtain ⟨htick, hrun, hreached⟩ := hb.states c hc
    refine ⟨by rw [st.tick]; exact htick.trans (Nat.le_succ _), hrun, ?_⟩
    -- What the tick added comes later, and its orbs are new.
    have hcut : before c.tick (afterTick history lived.state.tick pressed r) =
        before c.tick history := by
      rw [h.afterTick_eq]
      nth_rewrite 2 [h.split]
      rw [List.append_assoc, before_append_of_le, before_append_of_le]
      · intro e he
        rw [tick_of_mem_map_input h.queued e he]
        exact htick
      · intro e he
        rcases List.mem_append.mp he with he | he
        · rw [tick_of_mem_map_input hins e he]
          exact htick
        · obtain ⟨evs, _, hevents⟩ := st.events
          rw [hevents, List.map_map] at he
          obtain ⟨what, _, rfl⟩ := List.mem_map.mp he
          exact htick
    rw [hcut]
    obtain ⟨vs, hl, _⟩ := h.line
    obtain ⟨hnodup, hnew⟩ := hl.live_picks hs hins hstep (.inl hgo)
    refine hreached.congr fun id hid => (noted hs hstep hnodup values).1 id ?_
    exact hnew id ((picked_before_sublist htick history).subset hid)
  · have hline := hopen.line
    simp only at hline
    exact ⟨le_rfl, hgo, hline⟩

end

/-! ## 6. Rewinding -/

/-- What `pick` picks, as long as some state is late enough. -/
theorem RewindBuffer.pick_mem {b : RewindBuffer} {s : GameState} {floor : ℕ} (hs : s ∈ b.all)
    (hfloor : floor ≤ s.tick) (failedAt : ℕ) (minBack : Option ℤ) :
    ∃ t, b.pick A failedAt minBack floor = some t ∧ t ∈ b.all ∧ floor ≤ t.tick := by
  have hmem : ∀ {t}, t ∈ b.candidates floor → t ∈ b.all ∧ floor ≤ t.tick := by
    intro t ht
    exact (List.mem_filter.mp ht).imp_right of_decide_eq_true
  have hne : s ∈ b.candidates floor := List.mem_filter.mpr ⟨hs, decide_eq_true hfloor⟩
  unfold RewindBuffer.pick
  split
  · rename_i t ht
    exact ⟨t, rfl, hmem (List.mem_reverse.mp (List.mem_of_find?_eq_some ht))⟩
  · cases hc : b.candidates floor with
    | nil =>
        rw [hc] at hne
        exact absurd hne List.not_mem_nil
    | cons t ts =>
        exact ⟨t, rfl, hmem (by rw [hc]; exact List.mem_cons_self)⟩

theorem retryTicks_before {l : List HistoryEvent} {n : ℕ} (h : ∀ k ∈ retryTicks l, k < n) :
    retryTicks (before n l) = retryTicks l := by
  induction l with
  | nil => rfl
  | cons e l ih =>
      have hcons : ∀ m, retryTicks (e :: m) = retryTicks [e] ++ retryTicks m := fun m => by
        rw [← retryTicks_append, List.singleton_append]
      rw [hcons] at h
      have ih := ih fun k hk => h k (List.mem_append_right _ hk)
      by_cases he : e.tick < n
      · have hb : before n (e :: l) = e :: before n l := List.filter_cons_of_pos (decide_eq_true he)
        rw [hb, hcons (before n l), ih, ← hcons]
      · have hb : before n (e :: l) = before n l := List.filter_cons_of_neg (by simpa using he)
        have hnone : retryTicks [e] = [] := by
          refine List.eq_nil_iff_forall_not_mem.mpr fun k hk => he ?_
          obtain ⟨f, hf, rfl⟩ := tick_of_mem_retryTicks hk
          rw [List.mem_singleton.mp hf] at hk
          exact h _ (List.mem_append_left _ hk)
        rw [hb, hcons, hnone, ih, List.nil_append]

section

variable {queued : List InputEvent} {lived : Lived} {pressed : List PlayerInput}
  {tr : List (Port × ℚ)} {r : StepResult} {b : RewindBuffer}

/-- A hit that costs a retry comes after every attempt so far. -/
theorem OpenAt.hit (h : OpenAt A levels strict start history values queued lived)
    (hs : lived.state.status = .running)
    (hstep : (step A levels lived.state (queued.map inputOf ++ pressed.map .player)).Gives tr r)
    (hretry : r.state.status = .retry) :
    r.state.failedAt = lived.state.tick ∧ (∀ n ∈ retryTicks history, n < lived.state.tick) ∧
      attempts history < start.retries := by
  have st := step_gives hs hstep
  obtain ⟨hfailed, hleft⟩ := st.hit hretry
  have hnone : InputKind.retry ∉ queued.map inputOf := by
    intro hmem
    exact (st.safe (.inl (List.mem_append_left _ hmem))).1 hretry
  have hticks : retryTicks history = retryTicks (before lived.state.tick history) := by
    nth_rewrite 1 [h.split]
    rw [retryTicks_append, retryTicks_of_not_mem hnone, List.append_nil]
  obtain ⟨vs, hl, _⟩ := h.line
  refine ⟨hfailed, fun n hn => ?_, ?_⟩
  · rw [hticks] at hn
    obtain ⟨e, he, rfl⟩ := tick_of_mem_retryTicks hn
    exact hl.facts.ticks e he
  · rw [st.retries, hl.facts.retries, attempts_eq_length, ← hticks, ← attempts_eq_length] at hleft
    omega

/-- **The target of a rewind** is a state of the buffer, later than every attempt so far. -/
theorem retryTarget_spec (h : OpenAt A levels strict start history values queued lived)
    (hb : BufferOk A levels strict start history values lived.state b)
    (hs : lived.state.status = .running)
    (hstep : (step A levels lived.state (queued.map inputOf ++ pressed.map .player)).Gives tr r)
    (hretry : r.state.status = .retry) {run : Run} (hrewind : run.rewind = b)
    (hhistory : run.history = history ++ pressed.map fun k => .input ⟨lived.state.tick, .input k⟩) :
    ∃ target, Game.retryTarget A levels run r.state = some target ∧ target ∈ b.all ∧
      ∀ n ∈ retryTicks history, n < target.tick := by
  obtain ⟨_, hticks, _⟩ := h.hit hs hstep hretry
  have hsame : retryTicks run.history = retryTicks history := by
    rw [hhistory, retryTicks_append, retryTicks_pressed, List.append_nil]
  have hretried := h.retried
  rw [← hsame] at hticks hretried ⊢
  -- The floor is the tick after the last attempt.
  unfold Game.retryTarget
  rw [hrewind]
  unfold retryTicks at hticks hretried ⊢
  generalize hatt : (inputsOf run.history).filter (fun e => decide (inputOf e = .retry)) = att
    at hticks hretried ⊢
  have hfloor : att.getLast?.elim 0 (fun e => e.tick + 1) ≤ lived.state.tick := by
    cases hlast : att.getLast? with
    | none => exact Nat.zero_le _
    | some e =>
        exact hticks _ (List.mem_map.mpr ⟨e, List.mem_of_getLast? hlast, rfl⟩)
  obtain ⟨target, hpick, hmem, hle⟩ := RewindBuffer.pick_mem (A := A) hb.here hfloor
    r.state.failedAt (if speedAt A (levels r.state.level) r.state.elapsed = 0 then none
      else some ⌈A.div rewindPx (speedAt A (levels r.state.level) r.state.elapsed)⌉)
  refine ⟨target, hpick, hmem, fun n hn => lt_of_lt_of_le ?_ hle⟩
  -- Every attempt is at most the last one.
  cases hlast : att.getLast? with
  | none =>
      rw [List.getLast?_eq_none_iff.mp hlast] at hn
      exact absurd hn List.not_mem_nil
  | some e =>
      obtain ⟨init, rfl⟩ := List.getLast?_eq_some_iff.mp hlast
      rw [List.map_append, List.pairwise_append] at hretried
      rw [List.map_append, List.mem_append] at hn
      simp only [Option.elim_some]
      rcases hn with hn | hn
      · exact Nat.lt_succ_of_lt (hretried.2.2 n hn e.tick (by simp))
      · rw [List.map_singleton, List.mem_singleton] at hn
        rw [hn]
        exact Nat.lt_succ_self _

theorem mem_all_dropAfter {n : ℕ} {c : GameState} (h : c ∈ (b.dropAfter n).all) :
    c ∈ b.all ∧ (c.tick ≤ n ∨ b.anchor = some c) := by
  unfold RewindBuffer.dropAfter RewindBuffer.all at h
  unfold RewindBuffer.all
  simp only at h
  split at h
  · rename_i hw
    rw [if_pos hw]
    exact (List.mem_filter.mp h).imp_right fun h => .inl (of_decide_eq_true h)
  · rename_i hw
    rw [if_neg hw]
    rcases List.mem_append.mp h with h | h
    · exact ⟨List.mem_append_left _ h, .inr (Option.mem_toList.mp h)⟩
    · obtain ⟨hc, htick⟩ := List.mem_filter.mp h
      exact ⟨List.mem_append_right _ hc, .inl (of_decide_eq_true htick)⟩

theorem mem_dropAfter {c : GameState} (h : c ∈ b.all) : c ∈ (b.dropAfter c.tick).all := by
  unfold RewindBuffer.all at h
  unfold RewindBuffer.dropAfter RewindBuffer.all
  simp only
  by_cases hw : b.wrapped = true
  · rw [if_pos hw] at h ⊢
    exact List.mem_filter.mpr ⟨h, decide_eq_true le_rfl⟩
  · rw [if_neg hw] at h ⊢
    rcases List.mem_append.mp h with h | h
    · exact List.mem_append_left _ h
    · exact List.mem_append_right _ (List.mem_filter.mpr ⟨h, decide_eq_true le_rfl⟩)

/-- **A rewind keeps a segment open**, with one attempt more. -/
theorem OpenAt.rewind (h : OpenAt A levels strict start history values queued lived)
    (hb : BufferOk A levels strict start history values lived.state b)
    (hspent : attempts history < start.retries) {target : GameState} (htarget : target ∈ b.all)
    (hticks : ∀ n ∈ retryTicks history, n < target.tick) (pressed : List PlayerInput)
    (attempt : ℤ) (failedAt : ℕ) :
    let e : InputEvent := ⟨target.tick, .retryAttempt attempt failedAt⟩
    let history' := before target.tick
      (history ++ pressed.map fun k => .input ⟨lived.state.tick, .input k⟩) ++ [.input e]
    OpenAt A levels strict start history' values [e] ⟨target, lived.rewinds + 1⟩ ∧
      BufferOk A levels strict start history' values target (b.dropAfter target.tick) := by
  intro e history'
  obtain ⟨htick, hrun, hreached⟩ := hb.states target htarget
  have hcut : before target.tick
      (history ++ pressed.map fun k => .input ⟨lived.state.tick, .input k⟩) =
        before target.tick history := by
    refine before_append_of_le fun f hf => ?_
    obtain ⟨k, _, rfl⟩ := List.mem_map.mp hf
    exact htick
  have hhistory : history' = before target.tick history ++ [.input e] := by
    rw [← hcut]
  have hbefore : ∀ {n}, n ≤ target.tick → before n history' = before n history := by
    intro n hn
    rw [hhistory, before_append_of_le, before_before hn]
    intro f hf
    rw [List.mem_singleton.mp hf]
    exact hn
  have hretry : retryTicks history' = retryTicks history ++ [target.tick] := by
    rw [hhistory, retryTicks_append, retryTicks_before hticks]
    rfl
  have hattempts : attempts history' = attempts history + 1 := by
    rw [attempts_eq_length, hretry, List.length_append, ← attempts_eq_length]
    rfl
  constructor
  · refine ⟨?_, ?_, by simp [e], ?_, ?_, ?_, h.keys⟩
    · rw [hbefore le_rfl]
      exact hreached
    · rw [hbefore le_rfl, hhistory]
      rfl
    · rw [hretry]
      refine List.pairwise_append.mpr ⟨h.retried, List.pairwise_singleton _ _, fun n hn k hk => ?_⟩
      rw [List.mem_singleton.mp hk]
      exact hticks n hn
    · rw [hattempts]
      exact hspent
    · rw [hattempts, h.rewinds]
  · refine ⟨hb.anchor, mem_dropAfter htarget, fun c hc => ?_⟩
    obtain ⟨hmem, hle⟩ := mem_all_dropAfter hc
    have hle : c.tick ≤ target.tick := by
      rcases hle with hle | hle
      · exact hle
      · rw [hb.anchor c hle]
        exact Nat.zero_le _
    obtain ⟨_, hcrun, hcreached⟩ := hb.states c hmem
    refine ⟨hle, hcrun, ?_⟩
    rw [hbefore hle]
    exact hcreached

end

/-! ## 7. Beginnings, and inputs of the runtime -/

/-- **A segment begins.** -/
theorem openAt_initial (start : StartInput) :
    OpenAt A levels strict start [] [] [] ⟨initialState A levels start, 0⟩ where
  line := ⟨[], .nil, fun _ => rfl⟩
  split := rfl
  queued := fun _ he => absurd he List.not_mem_nil
  retried := .nil
  spent := Nat.zero_le _
  rewinds := rfl
  keys := .nil

theorem bufferOk_reset (start : StartInput) (history : List HistoryEvent)
    (values : List (ℕ × ℚ)) :
    BufferOk A levels strict start history values (initialState A levels start)
      (.reset (initialState A levels start)) where
  anchor := fun _ ha => by
    obtain rfl := Option.some.inj ha
    rfl
  here := by simp [RewindBuffer.reset, RewindBuffer.all]
  states := fun c hc => by
    have hc : c = initialState A levels start := by
      simpa [RewindBuffer.reset, RewindBuffer.all] using hc
    subst hc
    have hnone : before (initialState A levels start).tick history = [] :=
      before_eq_nil fun e _ => Nat.zero_le _
    exact ⟨le_rfl, rfl, [], by rw [hnone]; exact .nil, fun _ => by rw [hnone]; rfl⟩

section

variable {queued : List InputEvent} {lived : Lived} {b : RewindBuffer} {s : GameState}

theorem BufferOk.snoc (hb : BufferOk A levels strict start history values s b)
    {e : HistoryEvent} (he : e.tick = s.tick) :
    BufferOk A levels strict start (history ++ [e]) values s b := by
  refine ⟨hb.anchor, hb.here, fun c hc => ?_⟩
  obtain ⟨htick, hrun, hreached⟩ := hb.states c hc
  refine ⟨htick, hrun, ?_⟩
  rw [before_append_of_le fun f hf => by rw [List.mem_singleton.mp hf, he]; exact htick]
  exact hreached

/-- A resume is recorded. -/
theorem OpenAt.resume (h : OpenAt A levels strict start history values queued lived) :
    OpenAt A levels strict start
      (history ++ [.input ⟨lived.state.tick, .orchestratorStarted⟩]) values
      (queued ++ [⟨lived.state.tick, .orchestratorStarted⟩]) lived := by
  have hcut : before lived.state.tick
      (history ++ [.input ⟨lived.state.tick, .orchestratorStarted⟩]) =
        before lived.state.tick history :=
    before_append_of_le fun f hf => by rw [List.mem_singleton.mp hf]; exact le_rfl
  have hretry : retryTicks (history ++ [.input ⟨lived.state.tick, .orchestratorStarted⟩]) =
      retryTicks history := by
    rw [retryTicks_append]
    exact List.append_nil _
  have hattempts : attempts (history ++ [.input ⟨lived.state.tick, .orchestratorStarted⟩]) =
      attempts history := by
    rw [attempts_eq_length, hretry, ← attempts_eq_length]
  refine ⟨by rw [hcut]; exact h.line, ?_, ?_, by rw [hretry]; exact h.retried,
    by rw [hattempts]; exact h.spent, by rw [hattempts]; exact h.rewinds, h.keys⟩
  · rw [hcut, List.map_append, ← List.append_assoc, ← h.split]
    rfl
  · intro e he
    rcases List.mem_append.mp he with he | he
    · exact h.queued e he
    · rw [List.mem_singleton.mp he]

/-- What waits is what the history has at the tick. -/
theorem OpenAt.queued_eq (h : OpenAt A levels strict start history values queued lived) :
    (inputsOf history).filter (fun e => decide (e.tick = lived.state.tick)) = queued := by
  nth_rewrite 1 [h.split]
  rw [inputsOf_append, inputsOf_input, List.filter_append, List.filter_eq_nil_iff.mpr,
    List.filter_eq_self.mpr, List.nil_append]
  · exact fun e he => decide_eq_true (h.queued e he)
  · intro e he
    obtain ⟨f, hf, hfe⟩ := List.mem_filterMap.mp he
    have hlt := (mem_before.mp hf).2
    cases f with
    | input f =>
        cases hfe
        simpa using hlt.ne
    | outcome f => cases hfe

/-! ## 8. Replays -/

/-- A replay of an open segment, and the states it has been through. -/
structure ReplayingAt (A : Arith) (levels : LevelTable) (strict : Prop) (start : StartInput)
    (history : List HistoryEvent) (values : List (ℕ × ℚ)) (lived : Lived) (r : Replayer)
    (b : RewindBuffer) : Prop where
  opened : ∃ queued, OpenAt A levels strict start history values queued lived ∧
    Follows A levels start (before lived.state.tick history) lived.state (queued.map .input) r
  running : lived.state.status = .running
  buffer : r.divergedAt = none → BufferOk A levels False start history values r.state b

theorem ReplayingAt.create (h : OpenAt A levels strict start history values queued lived)
    (hs : lived.state.status = .running) :
    ReplayingAt A levels strict start history values lived
      (createReplayer A levels start history lived.state.tick)
      (.reset (initialState A levels start)) where
  opened := ⟨queued, h, by
    have := @Follows.create A levels start
      (before lived.state.tick history) lived.state (queued.map .input)
    rwa [← h.split] at this⟩
  running := hs
  buffer := fun _ => bufferOk_reset start history values

/-- A replay that has not diverged had not before, and goes forward. -/
theorem Replayer.advance1_forward {r : Replayer} (hrun : r.state.status = .running) :
    (r.advance1 A levels).Always fun r' =>
      r'.divergedAt = none → r.divergedAt = none ∧ r.state.tick ≤ r'.state.tick := by
  intro t r' hr' hnone
  obtain ⟨t, u, next, rfl, hnext, hacc⟩ := gives_bind.mp hr'
  obtain ⟨rfl, rfl⟩ := gives_done.mp hacc
  obtain ⟨tr, hstep, _⟩ := gives_via.mp hnext
  have st := step_gives hrun hstep
  unfold Replayer.accept at hnone ⊢
  dsimp only at hnone ⊢
  by_cases hdead : next.state.status = .failed ∨ next.state.status = .retry
  · rw [if_pos hdead] at hnone
    simp at hnone
  · rw [if_neg hdead] at hnone ⊢
    dsimp only at hnone ⊢
    rw [st.tick]
    refine ⟨?_, Nat.le_succ _⟩
    split at hnone
    · simp at hnone
    · exact hnone

theorem BufferOk.push (hb : BufferOk A levels False start history values s b) {s' : GameState}
    (htick : s.tick ≤ s'.tick) (hrun : s'.status = .running) {vs : List ℚ}
    (hl : Line A levels start (before s'.tick history) vs s') :
    BufferOk A levels False start history values s' (b.push s') := by
  refine ⟨by rw [anchor_push]; exact hb.anchor, self_mem_push b s', fun c hc => ?_⟩
  rcases mem_all_push hc with hc | rfl
  · obtain ⟨hle, hcrun, hreached⟩ := hb.states c hc
    exact ⟨hle.trans htick, hcrun, hreached⟩
  · exact ⟨le_rfl, hrun, vs, hl, False.elim⟩

/-- The events before a replay's tick. -/
theorem Follows.line {r : Replayer}
    (hr : Follows A levels start (before s.tick history) s (queued.map .input) r)
    (hdiv : r.divergedAt = none) :
    ∃ vs, Line A levels start (before r.state.tick history) vs r.state := by
  obtain ⟨Hn, tl, hsplit, hbefore, hafter, _, _, hline⟩ := hr.cut
  obtain ⟨vs, hl⟩ := hline hdiv
  have hcut : before r.state.tick history = Hn := by
    rw [← before_before hr.tick, hsplit, before_append_of_le hafter, before_eq_self hbefore]
  exact ⟨vs, by rw [hcut]; exact hl⟩

theorem ReplayingAt.advance1 {r : Replayer}
    (h : ReplayingAt A levels strict start history values lived r b) (hdone : r.done = false) :
    (r.advance1 A levels).Always fun r' =>
      ReplayingAt A levels strict start history values lived r'
        (if r'.state.status = .running then b.push r'.state else b) := by
  obtain ⟨queued, hopen, hfollows⟩ := h.opened
  obtain ⟨vs, hl, _⟩ := hopen.line
  have hids : (picked (before lived.state.tick history ++ queued.map .input)).Nodup := by
    rw [picked_append, picked_input, List.append_nil]
    exact (List.nodup_append.mp hl.facts.ids).1
  have hrest : ∀ e ∈ queued.map HistoryEvent.input, lived.state.tick ≤ e.tick := fun e he =>
    (tick_of_mem_map_input hopen.queued e he).ge
  intro t r' hr'
  have hnext := hfollows.advance1 hl h.running hrest hids hdone t r' hr'
  refine ⟨⟨queued, hopen, hnext⟩, h.running, fun hdiv => ?_⟩
  obtain ⟨hold, htick⟩ := Replayer.advance1_forward hfollows.running t r' hr' hdiv
  obtain ⟨vs', hl'⟩ := hnext.line hdiv
  rw [if_pos hnext.running]
  exact (h.buffer hold).push htick hnext.running hl'

theorem ReplayingAt.replayTicks (n : ℕ) {r : Replayer}
    (h : ReplayingAt A levels strict start history values lived r b) :
    (Game.replayTicks A levels n r b).Always fun x =>
      ReplayingAt A levels strict start history values lived x.1 x.2 := by
  induction n generalizing r b with
  | zero => exact always_done.mpr h
  | succ n ih =>
      rw [Game.replayTicks]
      by_cases hdone : r.done = true
      · rw [if_pos hdone]
        exact always_done.mpr h
      · rw [if_neg hdone]
        have hstep : (r.advance A levels 1).Always fun r' =>
            ReplayingAt A levels strict start history values lived r'
              (if r'.state.status = .running then b.push r'.state else b) := by
          rw [Replayer.advance, if_neg hdone]
          exact (h.advance1 (by simpa using hdone)).bind fun r' hr' => always_done.mpr hr'
        exact hstep.bind fun r' hr' => ih hr'

theorem Replayer.advance_of_done {r : Replayer} (h : r.done = true) (n : ℕ) :
    r.advance A levels n = .done r := by
  cases n with
  | zero => rfl
  | succ n => rw [Replayer.advance, if_pos h]

/-- **Two stretches of a replay** are one. -/
theorem Replayer.advance_add (k j : ℕ) (r : Replayer) :
    r.advance A levels (k + j) = r.advance A levels k >>= fun r' => r'.advance A levels j := by
  induction k generalizing r with
  | zero =>
      rw [Nat.zero_add]
      rfl
  | succ k ih =>
      rw [Nat.succ_add, Replayer.advance, Replayer.advance]
      by_cases hdone : r.done = true
      · rw [if_pos hdone, if_pos hdone, done_bind, Replayer.advance_of_done hdone]
      · rw [if_neg hdone, if_neg hdone, bind_bind]
        exact congrArg _ (funext ih)

theorem Replayer.advance_gives {k j : ℕ} {r r' r'' : Replayer} {t u : List (Draw × ℚ)}
    (h : (r.advance A levels k).Gives t r') (h' : (r'.advance A levels j).Gives u r'') :
    (r.advance A levels (k + j)).Gives (t ++ u) r'' := by
  rw [Replayer.advance_add]
  exact gives_bind.mpr ⟨t, u, r', rfl, h, h'⟩

/-- The ticks of a frame are a stretch of the replay. -/
theorem replayTicks_stage (n : ℕ) (r : Replayer) (b : RewindBuffer) :
    (Game.replayTicks A levels n r b).Always fun x =>
      ∃ k tr, (r.advance A levels k).Gives tr x.1 := by
  induction n generalizing r b with
  | zero => exact always_done.mpr ⟨0, [], .done r⟩
  | succ n ih =>
      rw [Game.replayTicks]
      split
      · exact always_done.mpr ⟨0, [], .done r⟩
      · have hself : (r.advance A levels 1).Always fun r' =>
            ∃ tr, (r.advance A levels 1).Gives tr r' := fun tr r' h => ⟨tr, h⟩
        refine hself.bind fun r' h => (ih r' _).mono fun x hx => ?_
        obtain ⟨t, ht⟩ := h
        obtain ⟨k, u, hu⟩ := hx
        exact ⟨1 + k, t ++ u, Replayer.advance_gives ht hu⟩

/-- An earlier state of the line. -/
theorem Reached.at_ {H : List HistoryEvent} (h : Reached A levels strict start values H s) {n : ℕ}
    (hn : n ≤ s.tick) : ∃ s', Reached A levels strict start values (before n H) s' ∧ s'.tick = n := by
  obtain ⟨vs, hl, htold⟩ := h
  obtain ⟨vs₁, vs₂, tl, s', hvs, hH, hl', htick, _⟩ := hl.at_ hn
  refine ⟨s', ⟨vs₁, hl', fun hstrict => ?_⟩, htick⟩
  have hall := htold hstrict
  rw [hvs, hH, orbQueue_append] at hall
  exact (List.append_inj hall (by rw [hl'.length, length_orbQueue])).1

/-- Where the history fixes its states, every line that reports it is the one live play went. -/
theorem Reached.of_line {n : ℕ} {s' : GameState}
    (h : Reached A levels strict start values (before n history) s) (hs : s.tick = n)
    (hdet : strict → Determined A levels start history) {vs : List ℚ}
    (hl : Line A levels start (before n history) vs s') (hs' : s'.tick = n) :
    Reached A levels strict start values (before n history) s' := by
  by_cases hstrict : strict
  · obtain ⟨us, hl₀, _⟩ := id h
    rw [hdet hstrict n vs us s' s hl hl₀ hs' hs]
    exact h
  · exact ⟨vs, hl, fun h => absurd h hstrict⟩

/-- **An accepted replay leaves an open segment** at the tick of the crash; in a strict account
    that is the state live play had. -/
theorem ReplayingAt.accepted {r : Replayer}
    (h : ReplayingAt A levels strict start history values lived r b) (hdone : r.done = true)
    (hdiv : r.divergedAt = none) (hdet : strict → Determined A levels start history) :
    (strict → r.state = lived.state) ∧ r.state.status = .running ∧ ∃ queued,
      OpenAt A levels strict start history values queued { lived with state := r.state } ∧
      BufferOk A levels strict start history values r.state b := by
  obtain ⟨queued, hopen, hfollows⟩ := h.opened
  have htick : r.state.tick = lived.state.tick := by
    have := hfollows.done
    rw [hdone, if_pos rfl] at this
    exact this hdiv
  obtain ⟨vs, hl⟩ := hfollows.line hdiv
  have hb := h.buffer hdiv
  have hline := hl
  rw [htick] at hline
  refine ⟨fun hstrict => ?_, hfollows.running, queued, ?_, hb.anchor, hb.here, fun c hc => ?_⟩
  · obtain ⟨us, hl₀, _⟩ := hopen.line
    exact hdet hstrict _ vs us _ _ hline hl₀ htick rfl
  · refine ⟨?_, ?_, ?_, hopen.retried, hopen.spent, hopen.rewinds, hopen.keys⟩
    · simp only
      rw [htick]
      exact hopen.line.of_line rfl hdet hline htick
    · simp only
      rw [htick]
      exact hopen.split
    · simp only
      rw [htick]
      exact hopen.queued
  · obtain ⟨hle, hcrun, us, hlc, _⟩ := hb.states c hc
    obtain ⟨c', hc', hctick⟩ := hopen.line.at_ (n := c.tick) (by rw [← htick]; exact hle)
    rw [before_before (by rw [← htick]; exact hle)] at hc'
    exact ⟨hle, hcrun, hc'.of_line hctick hdet hlc rfl⟩

end

/-- **An open segment replays** to the state live play came to; in a strict account, told the values
    noted for its orbs. -/
theorem OpenAt.replays {queued : List InputEvent} {lived : Lived}
    (h : OpenAt A levels strict start history values queued lived) :
    ∃ vs, (replay A levels start history lived.state.tick).Gives (vs.map fun v => (.impure, v))
        (.ok lived.state) ∧ vs.length = (orbIds history).length ∧
      (strict → vs = orbQueue history values) := by
  obtain ⟨vs, hl, htold⟩ := h.line
  have hids : (picked (before lived.state.tick history ++ queued.map .input)).Nodup := by
    rw [picked_append, picked_input, List.append_nil]
    exact (List.nodup_append.mp hl.facts.ids).1
  have hrest : ∀ e ∈ queued.map HistoryEvent.input, lived.state.tick ≤ e.tick := fun e he =>
    (tick_of_mem_map_input h.queued e he).ge
  have horbs : orbIds history = orbIds (before lived.state.tick history) := by
    nth_rewrite 1 [h.split]
    rw [orbIds_append, orbIds_input, List.append_nil]
  have hreplay := replay_line hl hrest hids
  rw [← h.split] at hreplay
  refine ⟨vs, hreplay, hl.length.trans (by rw [horbs]), fun hstrict => ?_⟩
  rw [htold hstrict, orbQueue, orbQueue, horbs]

end DevDashboard.Web.Replay
