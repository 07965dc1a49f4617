/-
  File:      DevDashboard/Web/EventOrder.lean
  Subject:   THE ORDER IN WHICH A HISTORY IS SHOWN (`lib/eventOrder.ts`).

  `sortHistoryForDisplay` compares two events by rank, then by time, then by their places; where a
  time cannot be read it goes by the places alone. `Date.parse` and the sort of the language are
  parameters; the sort promises an order for consistent comparisons only.

  * `compare_lt_iff` -- what comes first is what the comment of the source asks for;
  * `consistent_iff` -- **the comparison is consistent exactly if no event without a time stands
    between two of its rank of which the first is the later one** (`Tangled`);
  * `sortHistoryForDisplay_iff` -- in exactly these histories the result is the order asked for,
    and sorting it again changes nothing;
  * `tangled_has_no_order` -- three events for which no order will do.
-/
import DevDashboard.Lib.JsSort
import DevDashboard.Lib.Str

namespace DevDashboard.Web

open Lib

/-! ## 1. The source -/

/-- `WorkflowHistoryEvent`, the fields that order and pair events. The ids are numbers of a type
    `ι`. -/
structure WorkflowHistoryEvent (ι : Type) where
  sequenceId : ι
  timestamp : Str
  type : Str
  scheduledId : Option ι
  deriving DecidableEq

/-- `TERMINAL_EXEC_TYPES`. -/
def terminalExecTypes : List Str :=
  ["ExecutionCompleted".toList, "ExecutionFailed".toList, "ExecutionTerminated".toList]

variable {ι : Type}

def pinRank (event : WorkflowHistoryEvent ι) : Int :=
  if event.type = "ExecutionStarted".toList then 0
  else if event.type ∈ terminalExecTypes then 2
  else 1

/-- An event and its place in the history. -/
abbrev Placed (ι : Type) := WorkflowHistoryEvent ι × Nat

section Sorting

variable (parse : Str → Option Int)

/-- The comparison. -/
def compareEvents (a b : Placed ι) : Int :=
  let rankA := pinRank a.1
  let rankB := pinRank b.1
  if rankA ≠ rankB then rankA - rankB
  else
    match parse a.1.timestamp, parse b.1.timestamp with
    | some ta, some tb => if ta ≠ tb then ta - tb else a.2 - b.2
    | _, _ => a.2 - b.2

variable (sort : (Placed ι → Placed ι → Int) → List (Placed ι) → List (Placed ι))

def sortHistoryForDisplay (history : List (WorkflowHistoryEvent ι)) :
    List (WorkflowHistoryEvent ι) :=
  (sort (compareEvents parse) history.zipIdx).map Prod.fst

inductive HistoryOrder where
  | asc
  | desc
  deriving DecidableEq

def orderHistoryForDisplay (history : List (WorkflowHistoryEvent ι)) (order : HistoryOrder) :
    List (WorkflowHistoryEvent ι) :=
  let ascending := sortHistoryForDisplay parse sort history
  if order = .desc then ascending.reverse else ascending

end Sorting

/-! ## 2. What is asked for -/

section Spec

variable (parse : Str → Option Int)

/-- The times of both can be read, and differ. -/
def Timed (a b : Placed ι) : Prop :=
  ∃ ta tb, parse a.1.timestamp = some ta ∧ parse b.1.timestamp = some tb ∧ ta ≠ tb

/-- `a` may be shown before `b`: no rank comes before a smaller one, and of one rank times do not
    decrease, and events of equal times, or of which one has none, keep their places. -/
structure Before (a b : Placed ι) : Prop where
  rank : pinRank a.1 ≤ pinRank b.1
  time : pinRank a.1 = pinRank b.1 → ∀ ta tb, parse a.1.timestamp = some ta →
    parse b.1.timestamp = some tb → ta ≤ tb
  place : pinRank a.1 = pinRank b.1 → ¬ Timed parse a b → a.2 < b.2

/-- The events of a history in the order asked for, at every two places. -/
def DisplayOrder (history shown : List (WorkflowHistoryEvent ι)) : Prop :=
  ∃ placed : List (Placed ι), placed.Perm history.zipIdx ∧ shown = placed.map Prod.fst ∧
    placed.Pairwise (Before parse)

/-- An event without a time stands between two of its rank of which the first is the later one. -/
def Tangled (history : List (WorkflowHistoryEvent ι)) : Prop :=
  ∃ (i j k : Nat) (a b c : WorkflowHistoryEvent ι), i < j ∧ j < k ∧ history[i]? = some a ∧ history[j]? = some b ∧
    history[k]? = some c ∧ pinRank a = pinRank b ∧ pinRank b = pinRank c ∧
    ∃ ta tc, parse a.timestamp = some ta ∧ parse b.timestamp = none ∧
      parse c.timestamp = some tc ∧ tc < ta

end Spec

variable {parse : Str → Option Int}

/-! ## 3. The comparison -/

theorem compare_of_rank {a b : Placed ι} (h : pinRank a.1 ≠ pinRank b.1) :
    compareEvents parse a b = pinRank a.1 - pinRank b.1 := by
  simp only [compareEvents]
  rw [if_pos h]

theorem compare_of_timed {a b : Placed ι} {ta tb : Int} (h : pinRank a.1 = pinRank b.1)
    (ha : parse a.1.timestamp = some ta) (hb : parse b.1.timestamp = some tb) (hne : ta ≠ tb) :
    compareEvents parse a b = ta - tb := by
  simp only [compareEvents, ha, hb]
  rw [if_neg (not_not.mpr h), if_pos hne]

theorem compare_of_untimed {a b : Placed ι} (h : pinRank a.1 = pinRank b.1)
    (ht : ¬ Timed parse a b) : compareEvents parse a b = a.2 - b.2 := by
  simp only [compareEvents]
  rw [if_neg (not_not.mpr h)]
  cases ha : parse a.1.timestamp with
  | none => rfl
  | some ta =>
      cases hb : parse b.1.timestamp with
      | none => rfl
      | some tb => exact if_neg fun hne => ht ⟨ta, tb, ha, hb, hne⟩

theorem timed_comm {a b : Placed ι} : Timed parse a b ↔ Timed parse b a :=
  ⟨fun ⟨ta, tb, ha, hb, hne⟩ => ⟨tb, ta, hb, ha, Ne.symm hne⟩,
    fun ⟨ta, tb, ha, hb, hne⟩ => ⟨tb, ta, hb, ha, Ne.symm hne⟩⟩

/-- **What the comparison puts first is what may be shown first.** -/
theorem compare_lt_iff {a b : Placed ι} : compareEvents parse a b < 0 ↔ Before parse a b := by
  by_cases hr : pinRank a.1 = pinRank b.1
  · by_cases ht : Timed parse a b
    · obtain ⟨ta, tb, ha, hb, hne⟩ := ht
      rw [compare_of_timed hr ha hb hne]
      constructor
      · intro hlt
        refine ⟨hr.le, fun _ ta' tb' ha' hb' => ?_, fun _ hn => absurd ⟨ta, tb, ha, hb, hne⟩ hn⟩
        obtain rfl := Option.some.inj (ha.symm.trans ha')
        obtain rfl := Option.some.inj (hb.symm.trans hb')
        omega
      · intro h
        have := h.time hr ta tb ha hb
        omega
    · rw [compare_of_untimed hr ht]
      constructor
      · intro hlt
        refine ⟨hr.le, fun _ ta tb ha hb => ?_, fun _ _ => by omega⟩
        by_contra hle
        exact ht ⟨ta, tb, ha, hb, by omega⟩
      · intro h
        have := h.place hr ht
        omega
  · rw [compare_of_rank hr]
    constructor
    · intro hlt
      exact ⟨by omega, fun h => absurd h hr, fun h => absurd h hr⟩
    · intro h
      have := h.rank
      omega

theorem compare_neg (a b : Placed ι) : compareEvents parse b a = - compareEvents parse a b := by
  by_cases hr : pinRank a.1 = pinRank b.1
  · by_cases ht : Timed parse a b
    · obtain ⟨ta, tb, ha, hb, hne⟩ := ht
      rw [compare_of_timed hr ha hb hne, compare_of_timed hr.symm hb ha (Ne.symm hne)]
      omega
    · rw [compare_of_untimed hr ht, compare_of_untimed hr.symm (timed_comm.not.mp ht)]
      omega
  · rw [compare_of_rank hr, compare_of_rank (Ne.symm hr)]
    omega

variable {history : List (WorkflowHistoryEvent ι)}

/-- Two placed events of one place are the same. -/
theorem eq_of_place {a b : Placed ι} (ha : a ∈ history.zipIdx) (hb : b ∈ history.zipIdx)
    (h : a.2 = b.2) : a = b := by
  have ha := List.mem_zipIdx_iff_getElem?.mp ha
  have hb := List.mem_zipIdx_iff_getElem?.mp hb
  rw [h, hb] at ha
  exact Prod.ext (Option.some.inj ha.symm) h

theorem decisive_compareEvents : Decisive (compareEvents parse) history.zipIdx := by
  refine ⟨fun a _ b _ => compare_neg a b, fun a ha b hb h => eq_of_place ha hb ?_⟩
  by_cases hr : pinRank a.1 = pinRank b.1
  · by_cases ht : Timed parse a b
    · obtain ⟨ta, tb, hta, htb, hne⟩ := ht
      rw [compare_of_timed hr hta htb hne] at h
      omega
    · rw [compare_of_untimed hr ht] at h
      omega
  · rw [compare_of_rank hr] at h
    omega

theorem nodup_zipIdx : history.zipIdx.Nodup := by
  have hplaces : (history.zipIdx.map Prod.snd).Nodup := by
    rw [List.zipIdx_map_snd]
    exact List.nodup_range'
  exact hplaces.of_map

/-! ## 4. Tangled histories -/

/-- Three events of one rank that follow each other around, one of them without a time. -/
theorem tangled_of_untimed {a b c : Placed ι} (ha : a ∈ history.zipIdx) (hb : b ∈ history.zipIdx)
    (hc : c ∈ history.zipIdx) (hrab : pinRank a.1 = pinRank b.1) (hrbc : pinRank b.1 = pinRank c.1)
    (hab : Before parse a b) (hbc : Before parse b c) (hca : Before parse c a)
    (hnone : parse b.1.timestamp = none) : Tangled parse history := by
  have hplace₁ : a.2 < b.2 := hab.place hrab fun ⟨_, _, _, h, _⟩ => by
    rw [hnone] at h
    cases h
  have hplace₂ : b.2 < c.2 := hbc.place hrbc fun ⟨_, _, h, _, _⟩ => by
    rw [hnone] at h
    cases h
  have hrca : pinRank c.1 = pinRank a.1 := (hrab.trans hrbc).symm
  by_cases ht : Timed parse c a
  · obtain ⟨tc, ta, htc, hta, hne⟩ := ht
    have hle := hca.time hrca tc ta htc hta
    exact ⟨a.2, b.2, c.2, a.1, b.1, c.1, hplace₁, hplace₂, List.mem_zipIdx_iff_getElem?.mp ha,
      List.mem_zipIdx_iff_getElem?.mp hb, List.mem_zipIdx_iff_getElem?.mp hc, hrab, hrbc,
      ta, tc, hta, hnone, htc, by omega⟩
  · have := hca.place hrca ht
    omega

theorem tangled_of_cycle {a b c : Placed ι} (ha : a ∈ history.zipIdx) (hb : b ∈ history.zipIdx)
    (hc : c ∈ history.zipIdx) (hab : Before parse a b) (hbc : Before parse b c)
    (hca : Before parse c a) : Tangled parse history := by
  have h₁ := hab.rank
  have h₂ := hbc.rank
  have h₃ := hca.rank
  have hrab : pinRank a.1 = pinRank b.1 := by omega
  have hrbc : pinRank b.1 = pinRank c.1 := by omega
  have hrca : pinRank c.1 = pinRank a.1 := by omega
  cases hta : parse a.1.timestamp with
  | none => exact tangled_of_untimed hc ha hb hrca hrab hca hab hbc hta
  | some ta =>
      cases htb : parse b.1.timestamp with
      | none => exact tangled_of_untimed ha hb hc hrab hrbc hab hbc hca htb
      | some tb =>
          cases htc : parse c.1.timestamp with
          | none => exact tangled_of_untimed hb hc ha hrbc hrca hbc hca hab htc
          | some tc =>
              -- the times do not decrease all the way round, so that they are one time
              have hle₁ := hab.time hrab ta tb hta htb
              have hle₂ := hbc.time hrbc tb tc htb htc
              have hle₃ := hca.time hrca tc ta htc hta
              have hsame : ∀ {x y : Placed ι} {tx ty : Int}, parse x.1.timestamp = some tx →
                  parse y.1.timestamp = some ty → tx = ty → ¬ Timed parse x y := by
                rintro x y tx ty hx hy rfl ⟨tx', ty', hx', hy', hne⟩
                obtain rfl := Option.some.inj (hx.symm.trans hx')
                obtain rfl := Option.some.inj (hy.symm.trans hy')
                exact hne rfl
              have := hab.place hrab (hsame hta htb (by omega))
              have := hbc.place hrbc (hsame htb htc (by omega))
              have := hca.place hrca (hsame htc hta (by omega))
              omega

/-- **When the comparison is consistent**: exactly if the history is not tangled. -/
theorem consistent_iff :
    Consistent (compareEvents parse) history.zipIdx ↔ ¬ Tangled parse history := by
  constructor
  · rintro hc ⟨i, j, k, a, b, c, hij, hjk, ha, hb, hc', hrab, hrbc, ta, tc, hta, htb, htc, hlt⟩
    have ha : (a, i) ∈ history.zipIdx := List.mem_zipIdx_iff_getElem?.mpr ha
    have hb : (b, j) ∈ history.zipIdx := List.mem_zipIdx_iff_getElem?.mpr hb
    have hc' : (c, k) ∈ history.zipIdx := List.mem_zipIdx_iff_getElem?.mpr hc'
    have hab : compareEvents parse (a, i) (b, j) = i - j :=
      compare_of_untimed hrab fun ⟨_, _, _, h, _⟩ => by
        rw [htb] at h
        cases h
    have hbc : compareEvents parse (b, j) (c, k) = j - k :=
      compare_of_untimed hrbc fun ⟨_, _, h, _, _⟩ => by
        rw [htb] at h
        cases h
    have hac : compareEvents parse (a, i) (c, k) = ta - tc :=
      compare_of_timed (hrab.trans hrbc) hta htc (by omega)
    have := hc.trans_lt (a, i) ha (b, j) hb (c, k) hc' (by omega) (by omega)
    omega
  · intro ht
    refine decisive_compareEvents.consistent fun a ha b hb c hc hab hbc => ?_
    refine decisive_compareEvents.lt_of_no_cycle ha hb hc hab hbc fun hca => ht ?_
    exact tangled_of_cycle ha hb hc (compare_lt_iff.mp hab) (compare_lt_iff.mp hbc)
      (compare_lt_iff.mp hca)

/-- In a tangled history no order is the one asked for. -/
theorem not_tangled_of_displayOrder {shown : List (WorkflowHistoryEvent ι)}
    (h : DisplayOrder parse history shown) : ¬ Tangled parse history := by
  obtain ⟨placed, hperm, -, hbefore⟩ := h
  exact consistent_iff.mp (consistent_of_pairwise decisive_compareEvents hperm
    (hbefore.imp compare_lt_iff.mpr))

/-! ## 5. The result -/

section Result

variable {sort : (Placed ι → Placed ι → Int) → List (Placed ι) → List (Placed ι)}

/-- What is sorted as asked for is in its order, place by place. -/
theorem pairwise_zipIdx {placed : List (Placed ι)} (h : placed.Pairwise (Before parse)) :
    ((placed.map Prod.fst).zipIdx).Pairwise fun a b => compareEvents parse a b < 0 := by
  rw [List.pairwise_iff_getElem]
  intro i j hi hj hij
  rw [List.getElem_zipIdx, List.getElem_zipIdx, List.getElem_map, List.getElem_map, compare_lt_iff]
  simp only [List.length_zipIdx, List.length_map] at hi hj
  have hb := List.pairwise_iff_getElem.mp h i j hi hj hij
  exact ⟨hb.rank, hb.time, fun _ _ => by omega⟩

theorem displayOrder_sortHistoryForDisplay (hs : LawfulSort sort) (ht : ¬ Tangled parse history) :
    DisplayOrder parse history (sortHistoryForDisplay parse sort history) := by
  have hc := consistent_iff.mpr ht
  exact ⟨_, hs.perm _ _ hc, rfl,
    (hs.pairwise_lt decisive_compareEvents nodup_zipIdx hc).imp compare_lt_iff.mp⟩

/-- **Sorting a sorted history changes nothing.** -/
theorem sortHistoryForDisplay_of_displayOrder (hs : LawfulSort sort)
    {shown : List (WorkflowHistoryEvent ι)} (h : DisplayOrder parse history shown) :
    sortHistoryForDisplay parse sort shown = shown := by
  obtain ⟨placed, -, rfl, hbefore⟩ := h
  rw [sortHistoryForDisplay, hs.sort_eq decisive_compareEvents (List.Perm.refl _)
    (pairwise_zipIdx hbefore)]
  exact List.zipIdx_map_fst 0 _

/-- In either direction, a history that is not tangled is shown as it is, in another order. -/
theorem perm_orderHistoryForDisplay (hs : LawfulSort sort) (ht : ¬ Tangled parse history)
    (order : HistoryOrder) :
    (orderHistoryForDisplay parse sort history order).Perm history := by
  obtain ⟨placed, hperm, hshown, -⟩ := displayOrder_sortHistoryForDisplay hs ht
  have hasc : (sortHistoryForDisplay parse sort history).Perm history := by
    have := hperm.map Prod.fst
    rwa [← hshown, List.zipIdx_map_fst] at this
  cases order with
  | asc => exact hasc
  | desc => exact (List.reverse_perm _).trans hasc

/-- **A history is shown in the order asked for**, and sorting it again changes nothing, exactly
    if no event without a time stands between two of its rank of which the first is the later
    one. -/
theorem sortHistoryForDisplay_iff (hs : LawfulSort sort)
    (history : List (WorkflowHistoryEvent ι)) :
    (DisplayOrder parse history (sortHistoryForDisplay parse sort history) ∧
        sortHistoryForDisplay parse sort (sortHistoryForDisplay parse sort history) =
          sortHistoryForDisplay parse sort history) ↔
      ¬ Tangled parse history := by
  refine ⟨fun h => not_tangled_of_displayOrder h.1, fun ht => ?_⟩
  have h := displayOrder_sortHistoryForDisplay hs ht
  exact ⟨h, sortHistoryForDisplay_of_displayOrder hs h⟩

end Result

/-! ## 6. Two histories -/

/-- `Date.parse` on the timestamps below. -/
def dateParse (s : Str) : Option Int :=
  if s = "1970-01-01T00:00:01Z".toList then some 1000
  else if s = "1970-01-01T00:00:02Z".toList then some 2000
  else none

def taskScheduled (sequenceId : Int) (timestamp : String) : WorkflowHistoryEvent Int :=
  ⟨sequenceId, timestamp.toList, "TaskScheduled".toList, none⟩

/-- The later task first, and one without a time at the end. -/
def untangledHistory : List (WorkflowHistoryEvent Int) :=
  [taskScheduled 0 "1970-01-01T00:00:02Z", taskScheduled 1 "1970-01-01T00:00:01Z",
    taskScheduled 2 ""]

theorem sortHistoryForDisplay_untangled :
    ¬ Tangled dateParse untangledHistory ∧
      DisplayOrder dateParse untangledHistory (sortHistoryForDisplay dateParse
        (fun cmp l => sortStable (fun a b => decide (cmp a b < 0)) l) untangledHistory) := by
  have ht : ¬ Tangled dateParse untangledHistory := by
    rintro ⟨i, j, k, a, b, c, -, hjk, -, hb, hc, -, -, -, -, -, hnone, -⟩
    have hk : k < 3 := (List.getElem?_eq_some_iff.mp hc).1
    have hj : j = 0 ∨ j = 1 := by omega
    rcases hj with rfl | rfl
    · obtain rfl := Option.some.inj hb
      exact absurd hnone (by decide)
    · obtain rfl := Option.some.inj hb
      exact absurd hnone (by decide)
  exact ⟨ht, ((sortHistoryForDisplay_iff lawful_sortStable untangledHistory).mpr ht).1⟩

/-- The one without a time between the two. -/
def tangledHistory : List (WorkflowHistoryEvent Int) :=
  [taskScheduled 0 "1970-01-01T00:00:02Z", taskScheduled 1 "",
    taskScheduled 2 "1970-01-01T00:00:01Z"]

/-- **No order of these three events is the one asked for.** -/
theorem tangled_has_no_order : ¬ ∃ shown, DisplayOrder dateParse tangledHistory shown := by
  rintro ⟨shown, h⟩
  exact not_tangled_of_displayOrder h ⟨0, 1, 2, taskScheduled 0 "1970-01-01T00:00:02Z",
    taskScheduled 1 "", taskScheduled 2 "1970-01-01T00:00:01Z", by decide, by decide, rfl, rfl,
    rfl, rfl, rfl, 2000, 1000, by decide, by decide, by decide, by decide⟩

end DevDashboard.Web
