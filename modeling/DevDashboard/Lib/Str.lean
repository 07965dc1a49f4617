/-
  File:      DevDashboard/Lib/Str.lean
  Subject:   STRINGS AS CHARACTER LISTS, with the functions of Go's `strings` package that the
             program uses.

  A string is the list of its characters (valid UTF-8 on the Go side). `split` is
  `strings.Split`: the separator is found left to right, without overlaps.

  * `split_append` -- the text before the first separator is the first piece;
  * `split_of_no_sep` -- a text without the separator is one piece;
  * `exists_first_sep` -- a text that has the separator, taken apart at the first one;
  * `join_split` -- the pieces, joined by the separator, are the text.
-/
import Mathlib.Algebra.Order.Ring.Int
import Mathlib.Data.List.Basic
import Mathlib.Data.List.Infix
import Mathlib.Order.Lattice

namespace DevDashboard.Lib

/-- A Go or JavaScript string. -/
abbrev Str := List Char

instance : LawfulBEq Str := inferInstance

namespace Str

/-- `strings.HasPrefix(s, p)`. -/
def hasPrefix (s p : Str) : Bool := p.isPrefixOf s

/-- `strings.TrimPrefix(s, p)`. -/
def trimPrefix (s p : Str) : Str := if hasPrefix s p then s.drop p.length else s

@[simp] theorem hasPrefix_iff {s p : Str} : hasPrefix s p = true ↔ p <+: s :=
  List.isPrefixOf_iff_prefix

@[simp] theorem trimPrefix_append (p s : Str) : trimPrefix (p ++ s) p = s := by
  simp [trimPrefix]

theorem trimPrefix_of_not_prefix {s p : Str} (h : ¬ p <+: s) : trimPrefix s p = s := by
  simp [trimPrefix, h]

theorem trimPrefix_subset (s p : Str) : trimPrefix s p ⊆ s := by
  unfold trimPrefix
  split
  · exact List.drop_subset _ _
  · exact List.Subset.refl s

/-- What a test says of every character of a text. -/
theorem forall_mem_of_all {p : Char → Prop} [DecidablePred p] {s : Str}
    (h : s.all (fun c => decide (p c)) = true) : ∀ c ∈ s, p c := fun c hc =>
  of_decide_eq_true (List.all_eq_true.mp h c hc)

/-- A text cut where a test first fails. -/
theorem exists_span (P : Char → Bool) (s : Str) :
    ∃ p q, s = p ++ q ∧ (∀ c ∈ p, P c = true) ∧ ∀ c r, q = c :: r → P c = false := by
  refine ⟨s.takeWhile P, s.dropWhile P, List.takeWhile_append_dropWhile.symm,
    fun c hc => List.all_eq_true.mp List.all_takeWhile c hc, fun c r hq => ?_⟩
  have := List.head?_dropWhile_not P s
  rw [hq] at this
  simpa using this

/-- Two texts cut at their first `c` are cut at the same place. -/
theorem append_cons_inj {α : Type} {c : α} {a b x y : List α} (ha : c ∉ a) (hb : c ∉ b)
    (h : a ++ c :: x = b ++ c :: y) : a = b ∧ x = y := by
  induction a generalizing b with
  | nil =>
      cases b with
      | nil => exact ⟨rfl, (List.cons.inj h).2⟩
      | cons d b => exact absurd ((List.cons.inj h).1 ▸ List.mem_cons_self) hb
  | cons d a ih =>
      cases b with
      | nil => exact absurd ((List.cons.inj h).1 ▸ List.mem_cons_self) ha
      | cons e b =>
          obtain ⟨rfl, h'⟩ := List.cons.inj h
          obtain ⟨rfl, rfl⟩ := ih (fun hm => ha (List.mem_cons_of_mem d hm))
            (fun hm => hb (List.mem_cons_of_mem d hm)) h'
          exact ⟨rfl, rfl⟩

/-! ## 1. `strings.Split` -/

/-- `strings.Split` with a separator of length `skip + 1` when it starts: `skip` characters of a
    separator just found are still to be dropped, `acc` is the current piece, reversed. -/
def splitFrom (sep : Str) : Nat → Str → Str → List Str
  | _, acc, [] => [acc.reverse]
  | skip + 1, acc, _ :: s => splitFrom sep skip acc s
  | 0, acc, c :: s =>
      if hasPrefix (c :: s) sep then acc.reverse :: splitFrom sep (sep.length - 1) [] s
      else splitFrom sep 0 (c :: acc) s

/-- `strings.Split(s, sep)` for a non-empty `sep`. -/
def split (sep s : Str) : List Str := splitFrom sep 0 [] s

/-- No separator starts inside `a` when `a` is followed by one. -/
def SepFree (sep a : Str) : Prop := ∀ u v, a = u ++ v → v ≠ [] → ¬ sep <+: v ++ sep

theorem SepFree.tail {sep : Str} {c : Char} {a : Str} (h : SepFree sep (c :: a)) :
    SepFree sep a := fun u v hv hne => h (c :: u) v (by rw [hv]; rfl) hne

/-- A separator longer than what follows it cannot reach past it. -/
theorem prefix_append_iff {sep v b : Str} : sep <+: v ++ sep ++ b ↔ sep <+: v ++ sep := by
  constructor
  · intro h
    exact List.prefix_of_prefix_length_le h (List.prefix_append _ _) (by simp)
  · intro h
    exact h.trans (List.prefix_append _ _)

theorem splitFrom_skip (sep acc x s : Str) :
    splitFrom sep x.length acc (x ++ s) = splitFrom sep 0 acc s := by
  induction x with
  | nil => rfl
  | cons c x ih => simpa [splitFrom] using ih

/-- **The text before the first separator is the first piece.** -/
theorem splitFrom_append {sep : Str} (hsep : sep ≠ []) {a : Str} (ha : SepFree sep a)
    (acc b : Str) : splitFrom sep 0 acc (a ++ sep ++ b) = (acc.reverse ++ a) :: split sep b := by
  induction a generalizing acc with
  | nil =>
      cases sep with
      | nil => exact absurd rfl hsep
      | cons c sep =>
          have hp : hasPrefix (c :: (sep ++ b)) (c :: sep) = true :=
            hasPrefix_iff.mpr ⟨b, by simp⟩
          simp only [List.nil_append, List.cons_append, splitFrom, hp, if_true,
            List.length_cons, Nat.add_sub_cancel, List.append_nil, split]
          rw [splitFrom_skip]
  | cons c a ih =>
      have hp : hasPrefix (c :: (a ++ sep ++ b)) sep = false := by
        have h := ha [] (c :: a) rfl (by simp)
        rw [← Bool.not_eq_true, hasPrefix_iff]
        exact fun h' => h (prefix_append_iff.mp (by simpa using h'))
      simp only [List.cons_append, splitFrom, hp]
      rw [if_neg (by simp), ih ha.tail]
      simp

theorem split_append {sep : Str} (hsep : sep ≠ []) {a : Str} (ha : SepFree sep a) (b : Str) :
    split sep (a ++ sep ++ b) = a :: split sep b := splitFrom_append hsep ha [] b

theorem splitFrom_of_no_sep {sep s : Str} (h : ¬ sep <:+: s) (acc : Str) :
    splitFrom sep 0 acc s = [acc.reverse ++ s] := by
  induction s generalizing acc with
  | nil => simp [splitFrom]
  | cons c s ih =>
      have hp : ¬ hasPrefix (c :: s) sep = true := fun hp => h (hasPrefix_iff.mp hp).isInfix
      rw [splitFrom, if_neg hp, ih fun hi => h (hi.trans (List.suffix_cons c s).isInfix)]
      simp

/-- A text without the separator is one piece. -/
theorem split_of_no_sep {sep s : Str} (h : ¬ sep <:+: s) : split sep s = [s] :=
  splitFrom_of_no_sep h []

theorem sepFree_nil (sep : Str) : SepFree sep [] := by
  intro u v huv hv
  exact absurd (List.append_eq_nil_iff.mp huv.symm).2 hv

/-- **A text with the separator in it, taken apart at the first one.** -/
theorem exists_first_sep {sep s : Str} (h : sep <:+: s) :
    ∃ a b, SepFree sep a ∧ s = a ++ sep ++ b := by
  induction s with
  | nil =>
      obtain rfl := List.infix_nil.mp h
      exact ⟨[], [], sepFree_nil [], rfl⟩
  | cons c s ih =>
      by_cases hp : sep <+: c :: s
      · obtain ⟨b, hb⟩ := hp
        exact ⟨[], b, sepFree_nil sep, hb.symm⟩
      · obtain ⟨a, b, ha, rfl⟩ := ih ((List.infix_cons_iff.mp h).resolve_left hp)
        refine ⟨c :: a, b, fun u v huv hv hpre => ?_, rfl⟩
        cases u with
        | nil =>
            -- it would be a separator at the head of the whole text
            obtain rfl : v = c :: a := huv.symm
            exact hp (hpre.trans ⟨b, by simp⟩)
        | cons d u => exact ha u v (List.cons.inj huv).2 hv hpre

theorem split_ne_nil {sep : Str} (hsep : sep ≠ []) (s : Str) : split sep s ≠ [] := by
  by_cases h : sep <:+: s
  · obtain ⟨a, b, ha, rfl⟩ := exists_first_sep h
    rw [split_append hsep ha]
    exact List.cons_ne_nil _ _
  · rw [split_of_no_sep h]
    exact List.cons_ne_nil _ _

/-- **`strings.Join` undoes `strings.Split`.** -/
theorem join_split {sep : Str} (hsep : sep ≠ []) (s : Str) :
    sep.intercalate (split sep s) = s := by
  by_cases h : sep <:+: s
  · obtain ⟨a, b, ha, rfl⟩ := exists_first_sep h
    have hlen : b.length < (a ++ sep ++ b).length := by
      have := List.length_pos_iff.mpr hsep
      simp only [List.length_append]
      omega
    rw [split_append hsep ha, List.intercalate_cons_of_ne_nil (split_ne_nil hsep b),
      join_split hsep b]
  · rw [split_of_no_sep h, List.intercalate_singleton]
  termination_by s.length

end Str

end DevDashboard.Lib
