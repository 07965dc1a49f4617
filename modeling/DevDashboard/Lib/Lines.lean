/-
  File:      DevDashboard/Lib/Lines.lean
  Subject:   TERMINATED LINES OF A TEXT READ IN PIECES.

  `splitOn` cuts a text at every terminator; its last piece is what follows the last one. The
  pieces before it are the terminated `lines` of the text, the last piece is its `rest`, the
  line that is still open. A reader that keeps the rest and puts it before the next piece reads
  the same lines however the text is cut.

  * `splitOn_append` -- **reading in pieces**: the open line of the first piece is put before
    the second;
  * `lines_append`, `rest_append` -- the same for the lines and the rest;
  * `rest_eq_nil_iff` -- no line is open exactly at the start and after a terminator;
  * `lines_prefix` -- a longer text has the same lines and perhaps more.
-/
import Mathlib.Data.List.Basic
import Mathlib.Data.List.Infix

namespace DevDashboard.Lib.Lines

variable {α : Type} [DecidableEq α] {nl : α} {a b s : List α}

/-- The terminated lines of a text. -/
def lines (nl : α) (s : List α) : List (List α) := (s.splitOn nl).dropLast

/-- What follows the last terminator. -/
def rest (nl : α) (s : List α) : List α := (s.splitOn nl).getLastD []

theorem splitOn_eq (nl : α) (s : List α) : s.splitOn nl = lines nl s ++ [rest nl s] := by
  have hne := List.splitOn_ne_nil nl s
  rw [lines, rest, List.getLastD_eq_getLast?, List.getLast?_eq_some_getLast hne, Option.getD_some]
  exact (List.dropLast_append_getLast hne).symm

/-- The lines and the rest of a text, from how it is split. -/
theorem lines_rest_of_splitOn (ls : List (List α)) {r : List α} (h : s.splitOn nl = ls ++ [r]) :
    lines nl s = ls ∧ rest nl s = r := by
  rw [splitOn_eq] at h
  obtain ⟨hl, hr⟩ := List.append_inj' h rfl
  exact ⟨hl, (List.cons.inj hr).1⟩

@[simp] theorem lines_nil : lines nl ([] : List α) = [] := by simp [lines]

@[simp] theorem rest_nil : rest nl ([] : List α) = [] := by simp [rest]

theorem lines_of_not_mem (h : nl ∉ s) : lines nl s = [] := by
  simp [lines, List.splitOn_eq_singleton h]

theorem rest_of_not_mem (h : nl ∉ s) : rest nl s = s := by
  simp [rest, List.splitOn_eq_singleton h]

/-- **Reading in pieces**: the open line of the first piece is put before the second. -/
theorem splitOn_append (a b : List α) :
    (a ++ b).splitOn nl = lines nl a ++ (rest nl a ++ b).splitOn nl := by
  induction a with
  | nil => simp
  | cons x a ih =>
      have hsplit := List.splitOn_cons_eq_if_modifyHead (a := nl) x a
      rw [List.cons_append, List.splitOn_cons_eq_if_modifyHead, ih]
      split at hsplit <;> rename_i hx
      · -- `x` ends a line: the lines gain an empty first one, the rest stays
        rw [splitOn_eq nl a, ← List.cons_append] at hsplit
        obtain ⟨hl, hr⟩ := lines_rest_of_splitOn _ hsplit
        rw [if_pos hx, hl, hr, List.cons_append]
      · -- `x` belongs to the first line, which may be the open one
        rw [if_neg hx]
        rw [splitOn_eq nl a] at hsplit
        cases hla : lines nl a with
        | nil =>
            rw [hla] at hsplit
            obtain ⟨hl, hr⟩ := lines_rest_of_splitOn [] hsplit
            rw [hl, hr, List.nil_append, List.nil_append, List.cons_append,
              List.splitOn_cons_eq_if_modifyHead, if_neg hx]
        | cons l ls =>
            rw [hla] at hsplit
            obtain ⟨hl, hr⟩ := lines_rest_of_splitOn ((x :: l) :: ls) hsplit
            rw [hl, hr]
            rfl

theorem lines_append (a b : List α) : lines nl (a ++ b) = lines nl a ++ lines nl (rest nl a ++ b) :=
  (lines_rest_of_splitOn _ (by rw [splitOn_append, splitOn_eq nl (_ ++ b), List.append_assoc])).1

theorem rest_append (a b : List α) : rest nl (a ++ b) = rest nl (rest nl a ++ b) :=
  (lines_rest_of_splitOn _ (by rw [splitOn_append, splitOn_eq nl (_ ++ b), List.append_assoc])).2

/-- The open line holds no terminator. -/
theorem not_mem_rest (nl : α) (s : List α) : nl ∉ rest nl s := by
  induction s with
  | nil => simp
  | cons x s ih =>
      have hsplit := List.splitOn_cons_eq_if_modifyHead (a := nl) x s
      rw [splitOn_eq nl s] at hsplit
      split at hsplit <;> rename_i hx
      · rw [← List.cons_append] at hsplit
        rwa [(lines_rest_of_splitOn _ hsplit).2]
      · cases hls : lines nl s with
        | nil =>
            rw [hls] at hsplit
            rw [(lines_rest_of_splitOn [] hsplit).2]
            intro hm
            rcases List.mem_cons.mp hm with rfl | hm
            · exact hx (beq_self_eq_true _)
            · exact ih hm
        | cons l ls =>
            rw [hls] at hsplit
            rwa [(lines_rest_of_splitOn ((x :: l) :: ls) hsplit).2]

/-- A text that ends a line: its open line becomes the last of its lines. -/
theorem lines_concat (s : List α) : lines nl (s ++ [nl]) = lines nl s ++ [rest nl s] := by
  have h : (rest nl s ++ [nl]).splitOn nl = [rest nl s] ++ [[]] := by
    rw [List.splitOn_append_cons_self_of_not_mem (not_mem_rest nl s)]
    rfl
  rw [lines_append, (lines_rest_of_splitOn _ h).1]

theorem rest_concat (s : List α) : rest nl (s ++ [nl]) = [] := by
  have h : (rest nl s ++ [nl]).splitOn nl = [rest nl s] ++ [[]] := by
    rw [List.splitOn_append_cons_self_of_not_mem (not_mem_rest nl s)]
    rfl
  rw [rest_append, (lines_rest_of_splitOn _ h).2]

/-- **No line is open** exactly at the start of the text and after a terminator. -/
theorem rest_eq_nil_iff : rest nl s = [] ↔ s = [] ∨ s.getLast? = some nl := by
  rcases s.eq_nil_or_concat with rfl | ⟨l, x, rfl⟩
  · simp
  · by_cases hx : x = nl
    · simp [hx, rest_concat]
    · have hm : nl ∉ rest nl l ++ [x] := by
        simp [not_mem_rest, Ne.symm hx]
      simp [rest_append, rest_of_not_mem hm, hx]

/-- A text is its terminated lines and the open one. -/
theorem exists_append_rest (s : List α) : ∃ a, s = a ++ rest nl s ∧ rest nl a = [] := by
  induction s using List.reverseRecOn with
  | nil => exact ⟨[], by simp⟩
  | append_singleton s x ih =>
      by_cases hx : x = nl
      · subst hx
        exact ⟨s ++ [x], by rw [rest_concat, List.append_nil], rest_concat s⟩
      · obtain ⟨a, hs, ha⟩ := ih
        have hm : nl ∉ rest nl s ++ [x] := by simp [not_mem_rest, Ne.symm hx]
        refine ⟨a, ?_, ha⟩
        rw [rest_append, rest_of_not_mem hm, ← List.append_assoc, ← hs]

/-- No line is open after `a`: the lines of what follows are read by themselves. -/
theorem lines_append_of_rest (h : rest nl a = []) :
    lines nl (a ++ b) = lines nl a ++ lines nl b := by
  rw [lines_append, h, List.nil_append]

theorem rest_append_of_rest (h : rest nl a = []) : rest nl (a ++ b) = rest nl b := by
  rw [rest_append, h, List.nil_append]

theorem lines_prefix (h : a <+: b) : lines nl a <+: lines nl b := by
  obtain ⟨c, rfl⟩ := h
  rw [lines_append]
  exact List.prefix_append _ _

/-- The pieces of a text are made of its characters. -/
theorem subset_of_mem_splitOn {l : List α} (h : l ∈ s.splitOn nl) : l ⊆ s := by
  have hj : [nl].intercalate (s.splitOn nl) = s := List.intercalate_splitOn nl
  intro c hc
  rw [← hj]
  obtain ⟨as, bs, hab⟩ := List.append_of_mem h
  rw [hab]
  clear hab hj h
  induction as with
  | nil => cases bs <;> simp [List.intercalate, hc]
  | cons a as ih =>
      rw [List.cons_append, List.intercalate_cons_of_ne_nil (by simp)]
      exact List.mem_append_right _ ih

/-- No line holds a terminator. -/
theorem not_mem_of_mem_lines {l : List α} (h : l ∈ lines nl s) : nl ∉ l := by
  induction s using List.reverseRecOn with
  | nil => simp at h
  | append_singleton s x ih =>
      by_cases hx : x = nl
      · rw [hx, lines_concat, List.mem_append, List.mem_singleton] at h
        rcases h with h | rfl
        · exact ih h
        · exact not_mem_rest nl s
      · have hm : nl ∉ rest nl s ++ [x] := by simp [not_mem_rest, Ne.symm hx]
        rw [lines_append, lines_of_not_mem hm, List.append_nil] at h
        exact ih h

end DevDashboard.Lib.Lines
