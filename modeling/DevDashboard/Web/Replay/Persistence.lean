/-
  File:      DevDashboard/Web/Replay/Persistence.lean
  Subject:   WHAT THE GAME STORES, IT CAN LOAD (runtime/persistence.ts, validate.ts, tape.ts).

  A save that the validators refuse is lost without a word, and with it the run. What the invariant
  of runs says of a save and of a tape is all they ask for.

  * `isSaveBody_toJson`, `isTape_toJson` -- the validators accept what the invariant describes;
  * `saves_load` -- **every save** that any run hands to the store is read back as it was;
  * `tapes_watch` -- the tape of live play is always one that can be watched.
-/
import DevDashboard.Web.Replay.Runs

namespace DevDashboard.Web.Replay

open Lib Asking

/-! ## 1. Properties of objects -/

theorem prop_object_cons (name n : String) (v : Json) (fields : List (String × Json)) :
    prop name (object ((n, v) :: fields)) = if name = n then some v else prop name (object fields) := by
  show (((n, v) :: fields).map fun f => (f.1.toList, f.2)).lookup name.toList = _
  rw [List.map_cons, List.lookup_cons]
  by_cases h : name = n
  · rw [if_pos h, h, beq_self_eq_true]
  · have hbeq : (name.toList == n.toList) = false :=
      beq_eq_false_iff_ne.mpr fun he => h (String.toList_inj.mp he)
    rw [if_neg h, hbeq]
    rfl

@[simp] theorem isObj_object (fields : List (String × Json)) : isObj (object fields) = true := rfl

theorem isOneOf_text (names : List String) (s : String) :
    isOneOf names (some (text s)) = decide (s ∈ names) := by
  show decide (s.toList ∈ names.map String.toList) = _
  rw [Bool.eq_iff_iff, decide_eq_true_iff, decide_eq_true_iff, List.mem_map]
  constructor
  · intro h
    obtain ⟨name, hmem, heq⟩ := h
    rwa [← String.toList_inj.mp heq]
  · exact fun h => ⟨s, h, rfl⟩

@[simp] theorem isNum_count (n : ℕ) : isNum (some (count n)) = true := rfl

@[simp] theorem isNum_num (x : ℚ) : isNum (some (.num x)) = true := rfl

@[simp] theorem isBool_bool (b : Bool) : isBool (some (.bool b)) = true := rfl

@[simp] theorem isNonneg_count (n : ℕ) :
    isNumWith (fun x => decide (0 ≤ x)) (some (count n)) = true :=
  decide_eq_true (Nat.cast_nonneg n)

@[simp] theorem isTick_count (n : ℕ) : isTick (some (count n)) = true :=
  decide_eq_true ⟨rfl, Nat.cast_nonneg n⟩

theorem isArrayOf_map {α : Type} {p : Json → Bool} {f : α → Json} {l : List α}
    (h : ∀ x ∈ l, p (f x) = true) : isArrayOf p (some (.arr (l.map f))) = true := by
  show (l.map f).all p = true
  rw [List.all_eq_true]
  intro v hv
  obtain ⟨x, hx, rfl⟩ := List.mem_map.mp hv
  exact h x hx

@[simp] theorem isPairs_pairsJson (l : List (ℕ × ℚ)) : isPairs (some (pairsJson l)) = true :=
  isArrayOf_map fun _ _ => rfl

theorem isOrdered_of_pairwise {l : List ℚ} (h : l.Pairwise (· ≤ ·)) : isOrdered l = true := by
  induction l with
  | nil => rfl
  | cons x l ih =>
      rw [List.pairwise_cons] at h
      cases l with
      | nil => rfl
      | cons y l =>
          rw [isOrdered, ih h.2, decide_eq_true (h.1 y List.mem_cons_self)]
          rfl

/-! ## 2. Events -/

@[simp] theorem HistoryEvent.tick_toJson (e : HistoryEvent) :
    prop "tick" e.toJson = some (count e.tick) := by
  cases e with
  | input e =>
      obtain ⟨tick, what⟩ := e
      cases what <;> simp only [toJson, InputEvent.toJson, prop_object_cons, String.reduceEq,
        if_true, if_false, HistoryEvent.tick]
  | outcome e =>
      obtain ⟨tick, hash, what⟩ := e
      cases what <;> simp only [toJson, OutcomeEvent.toJson, prop_object_cons, String.reduceEq,
        if_true, if_false, HistoryEvent.tick]

/-- **Every event is accepted.** -/
theorem isEvent_toJson (e : HistoryEvent) : isEvent e.toJson = true := by
  have hkind : ∀ kind : PlayerInput, kind.name ∈ playerInputs := by
    intro kind
    cases kind <;> decide
  unfold isEvent
  rw [HistoryEvent.tick_toJson]
  cases e with
  | input e =>
      obtain ⟨tick, what⟩ := e
      cases what <;> simp [HistoryEvent.toJson, InputEvent.toJson, prop_object_cons, isOneOf_text, hkind]
  | outcome e =>
      obtain ⟨tick, hash, what⟩ := e
      have hresults : ∀ results : List ℕ,
          isArrayOf (fun x => isNum (some x)) (some (.arr (results.map count))) = true :=
        fun results => isArrayOf_map fun n _ => isNum_count n
      cases what <;> simp [HistoryEvent.toJson, OutcomeEvent.toJson, prop_object_cons,
        Outcome.typeName, isOneOf_text, hresults]

theorem isInputEvent_toJson (e : InputEvent) : isInputEvent e.toJson = true := by
  obtain ⟨tick, what⟩ := e
  cases what <;> simp [isInputEvent, InputEvent.toJson, prop_object_cons, isOneOf_text]

/-! ## 3. Saves -/

theorem isLevel_count (level : Level) :
    isNumWith (fun x => decide (x ∈ [0, 1, 2, 3, 4, 5])) (some (count level.val)) = true := by
  revert level
  decide +kernel

@[simp] theorem isStart_toJson (start : StartInput) : isStart start.toJson = true := by
  unfold isStart StartInput.toJson
  simp only [prop_object_cons, String.reduceEq, if_true, if_false, isLevel_count]
  simp

@[simp] theorem isStats_toJson (stats : RunStats) : isStats stats.toJson = true := by
  simp [isStats, RunStats.toJson, prop_object_cons, statKeys]

@[simp] theorem isHistory_toJson (history : List HistoryEvent) :
    isArrayOf isEvent (some (.arr (history.map HistoryEvent.toJson))) = true :=
  isArrayOf_map fun e _ => isEvent_toJson e

@[simp] theorem isSegment_toJson (seg : MontageSegment) : isSegment seg.toJson = true := by
  simp [isSegment, MontageSegment.toJson, prop_object_cons]

/-- The events of a save are in order: outcomes before its tick, inputs at most at it. -/
structure Timely (tick : ℕ) (history : List HistoryEvent) : Prop where
  ordered : history.Pairwise fun e f => e.tick ≤ f.tick
  bound : ∀ e ∈ history, e.tick ≤ tick
  outcomes : ∀ e ∈ outcomesOf history, e.tick < tick

theorem isOrderedHistory_toJson {tick : ℕ} {history : List HistoryEvent} (h : Timely tick history) :
    isOrderedHistory tick (history.map HistoryEvent.toJson) = true := by
  unfold isOrderedHistory
  have hticks : (history.map HistoryEvent.toJson).filterMap (fun e => number (prop "tick" e)) =
      history.map fun e => (e.tick : ℚ) := by
    rw [List.filterMap_map, ← List.filterMap_eq_map]
    congr 1
    funext e
    rw [Function.comp_apply, HistoryEvent.tick_toJson]
    rfl
  rw [hticks, isOrdered_of_pairwise, Bool.true_and, List.all_map, List.all_eq_true]
  · intro e he
    rw [Function.comp_apply, HistoryEvent.tick_toJson]
    have hle : decide ((e.tick : ℚ) ≤ tick) = true := decide_eq_true (Nat.cast_le.mpr (h.bound e he))
    cases e with
    | input e =>
        show (if isInputEvent e.toJson = true then _ else _) = true
        rw [if_pos (isInputEvent_toJson e)]
        exact hle
    | outcome e =>
        show (if isInputEvent e.toJson = true then _ else _) = true
        split
        · exact hle
        · have hlt := h.outcomes e (List.mem_filterMap.mpr ⟨_, he, rfl⟩)
          exact decide_eq_true (Nat.cast_lt.mpr hlt)
  · exact List.pairwise_map.mpr (h.ordered.imp fun h => Nat.cast_le.mpr h)

/-- **The body of a save is accepted.** -/
theorem isSaveBody_toJson {b : SaveBody} (hdate : isDateText b.date = true)
    (h : Timely b.tick b.history) (more : List (String × Json)) :
    isSaveBody (object (b.fields ++ more)) = true := by
  have hdiv : (isNull (some (b.divergedAt.elim .null count)) ||
      isNum (some (b.divergedAt.elim .null count))) = true := by
    cases b.divergedAt <;> rfl
  have hsegments : isArrayOf isSegment (some (.arr (b.segments.map MontageSegment.toJson))) = true :=
    isArrayOf_map fun seg _ => isSegment_toJson seg
  have hd : isDate (some (.str b.date)) = true := hdate
  have hordered := isOrderedHistory_toJson h
  unfold isSaveBody SaveBody.fields
  simp only [List.cons_append, prop_object_cons, String.reduceEq, if_true, if_false, hdiv, hsegments,
    hd, isObj_object, isHistory_toJson, isPairs_pairsJson, isNonneg_count, Option.any_some,
    isStart_toJson, isStats_toJson, Bool.and_true, Bool.true_and]
  rw [Bool.and_eq_true]
  exact ⟨by decide +kernel, hordered⟩

variable {A : Arith} {levels : LevelTable} {strict : Prop} {g : Game}

/-- The events of an open segment are in order. -/
theorem OpenAt.timely {start : StartInput} {history : List HistoryEvent} {values : List (ℕ × ℚ)}
    {queued : List InputEvent} {lived : Lived}
    (h : OpenAt A levels strict start history values queued lived) :
    Timely lived.state.tick history := by
  obtain ⟨vs, hl, _⟩ := h.line
  have hbefore : ∀ e ∈ before lived.state.tick history, e.tick < lived.state.tick := fun e he =>
    (mem_before.mp he).2
  have hqueued : ∀ e ∈ queued.map HistoryEvent.input, e.tick = lived.state.tick := fun e he =>
    tick_of_mem_map_input h.queued e he
  rw [h.split]
  refine ⟨?_, ?_, ?_⟩
  · refine List.pairwise_append.mpr ⟨hl.facts.ordered, ?_, fun e he f hf => ?_⟩
    · exact List.pairwise_of_forall_mem_list fun e he f hf => by rw [hqueued e he, hqueued f hf]
    · rw [hqueued f hf]
      exact (hbefore e he).le
  · intro e he
    rcases List.mem_append.mp he with he | he
    · exact (hbefore e he).le
    · exact (hqueued e he).le
  · intro e he
    rw [outcomesOf_append, outcomesOf_input, List.append_nil] at he
    obtain ⟨f, hf, hfe⟩ := List.mem_filterMap.mp he
    have hlt := hbefore f hf
    cases f with
    | input f => cases hfe
    | outcome f =>
        cases hfe
        exact hlt

theorem SaveOk.isSaveBody {b : SaveBody} (h : SaveOk A levels strict b)
    (more : List (String × Json)) : isSaveBody (object (b.fields ++ more)) = true := by
  obtain ⟨queued, hopen⟩ := h.opened
  refine isSaveBody_toJson h.date ?_ more
  rw [← h.tick]
  exact hopen.timely

/-! ## 4. Tapes -/

theorem isU32_count {u : ℕ} (h : u < 2 ^ 32) : isU32 (count u) = true := by
  refine decide_eq_true ⟨rfl, Nat.cast_nonneg u, ?_⟩
  unfold u32
  exact_mod_cast h

/-- **The tape a recorder writes is accepted.** -/
theorem TapeOk.isTape {t : Tape} (h : TapeOk A levels strict t) : isTape t.toJson = true := by
  have hkind : ∀ kind : PlayerInput, kind.name ∈ playerInputs := by
    intro kind
    cases kind <;> decide
  have hdate : isDate (some (.str t.date)) = true := h.date
  have himpure : isArrayOf isU32 (some (.arr (t.impure.map count))) = true :=
    isArrayOf_map fun u hu => isU32_count (h.impure u hu)
  have hchaos : isArrayOf isU32 (some (.arr (t.chaos.map count))) = true :=
    isArrayOf_map fun u hu => isU32_count (h.chaos u hu)
  have hinputs : isArrayOf isTapeInput (some (.arr (t.inputs.map fun i =>
      .arr [count i.1, text i.2.name]))) = true := by
    refine isArrayOf_map fun i _ => ?_
    show (isTick (some (count i.1)) && isOneOf playerInputs (some (text i.2.name))) = true
    rw [isTick_count, isOneOf_text, decide_eq_true (hkind i.2)]
    rfl
  have hordered : isOrdered ((items (some (.arr (t.inputs.map fun i =>
      .arr [count i.1, text i.2.name])))).filterMap inputTick) = true := by
    have hticks : (items (some (.arr (t.inputs.map fun i =>
        .arr [count i.1, text i.2.name])))).filterMap inputTick = t.inputs.map fun i => (i.1 : ℚ) := by
      show (t.inputs.map _).filterMap inputTick = _
      rw [List.filterMap_map, ← List.filterMap_eq_map]
      rfl
    rw [hticks]
    exact isOrdered_of_pairwise (List.pairwise_map.mpr (h.ordered.imp fun h => Nat.cast_le.mpr h))
  have hrestarts : isArrayOf isRestart (some (.arr (t.restarts.map Restart.toJson))) = true := by
    refine isArrayOf_map fun r hr => ?_
    have hsave := (h.restarts r hr).isSaveBody []
    rw [List.append_nil] at hsave
    simp [isRestart, Restart.toJson, prop_object_cons, SaveBody.toJson, hsave]
  unfold Web.Replay.isTape Tape.toJson
  simp only [prop_object_cons, String.reduceEq, if_true, if_false, hdate, himpure, hchaos, hinputs,
    hordered, hrestarts, isObj_object, isTick_count, Bool.and_true, Bool.true_and]
  decide +kernel

theorem prop_append (name : String) (l m : List (String × Json)) (h : name ∉ l.map Prod.fst) :
    prop name (object (l ++ m)) = prop name (object m) := by
  induction l with
  | nil => rfl
  | cons f l ih =>
      rw [List.map_cons, List.mem_cons, not_or] at h
      rw [List.cons_append, prop_object_cons, if_neg h.1]
      exact ih h.2

theorem SaveOk.isSave {s : Save} (hbody : SaveOk A levels strict s.body)
    (htape : TapeOk A levels strict s.tape) : isSave s.toJson = true := by
  unfold Web.Replay.isSave Save.toJson
  rw [hbody.isSaveBody, prop_append _ _ _ (by simp [SaveBody.fields]), prop_object_cons, if_pos rfl,
    Option.any_some, htape.isTape]
  rfl

/-! ## 5. Every run -/

/-- What `JSON.stringify` writes of a value is read back, where the validators accept it. -/
theorem parseSave_print {v : Json} (h : isSave v = true) : parseSave (Json.print v) = some v := by
  have hne : Json.print v ≠ [] := by
    obtain ⟨c, t, heq, _⟩ := Json.print_eq_cons v
    rw [heq]
    exact List.cons_ne_nil c t
  rw [parseSave, if_neg hne, Json.parse_print, Option.bind_some, if_pos h]

/-- **Every save loads**: whatever a run hands to the store comes back as it was. Its events are in
    order, with outcomes before its tick and inputs at most at it. -/
theorem saves_load {today : Day} {best : ℕ} {daily : Option (Str × ℕ)} {l : List (Game × Action)}
    (h : Runs A levels today best daily l g) {s : Save} (hs : s ∈ g.store.handed) :
    parseSave (Json.print s.toJson) = some s.toJson ∧ Timely s.body.tick s.body.history := by
  have hi : Inv A levels False g := inv_of_run h False.elim
  obtain ⟨hbody, htape⟩ := hi.store.handed s hs
  obtain ⟨queued, hopen⟩ := hbody.opened
  refine ⟨parseSave_print (hbody.isSave htape), ?_⟩
  rw [← hbody.tick]
  exact hopen.timely

/-- The saves of a run that a hit has rewound. -/
theorem saves_load_hit : ∃ s ∈ afterHit.store.handed,
    parseSave (Json.print s.toJson) = some s.toJson ∧ Timely s.body.tick s.body.history := by
  obtain ⟨l, hl⟩ := runs_rackGame none none [.command newYear (.input .slideStart), .frame newYear 4]
  have hne : afterHit.store.handed ≠ [] := by decide +kernel
  exact ⟨_, List.getLast_mem hne, saves_load hl (List.getLast_mem hne)⟩

/-- **Every tape of live play can be watched.** -/
theorem tapes_watch {today : Day} {best : ℕ} {daily : Option (Str × ℕ)} {l : List (Game × Action)}
    (h : Runs A levels today best daily l g) (hp : g.playback = false)
    (hidle : g.phase.idle = false) : isTape g.tape.toJson = true := by
  have hi : Inv A levels False g := inv_of_run h False.elim
  exact (hi.good hidle fun h => by rw [hp] at h; cases h).base.tape.isTape

end DevDashboard.Web.Replay
