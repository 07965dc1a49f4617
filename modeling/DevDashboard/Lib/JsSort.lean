/-
  File:      DevDashboard/Lib/JsSort.lean
  Subject:   SORTING BY A COMPARISON FUNCTION OF JAVASCRIPT (`Array.prototype.sort`).

  The language promises an order for a comparison that is consistent on the elements, and nothing
  for another one: so the sort is a parameter, with that promise (`LawfulSort`). A comparison that
  never calls two elements equal says of any two which comes first, and an order that does as it
  says of all of them need not exist.

  * `lawful_sortStable` -- there is a sort that keeps the promise;
  * `consistent_of_pairwise`, `LawfulSort.sort_eq` -- **where there is an order in which every
    element comes before all later ones**, the comparison is consistent, and that order is what
    the sort gives.
-/
import DevDashboard.Lib.WeakOrder
import Mathlib.Tactic.Common

namespace DevDashboard.Lib

variable {α : Type} {cmp : α → α → Int} {l o : List α}

/-! ## 1. The promise -/

/-- A consistent comparator on the elements of a list. -/
structure Consistent (cmp : α → α → Int) (l : List α) : Prop where
  refl : ∀ a ∈ l, cmp a a = 0
  symm : ∀ a ∈ l, ∀ b ∈ l, cmp a b = 0 → cmp b a = 0
  trans_eq : ∀ a ∈ l, ∀ b ∈ l, ∀ c ∈ l, cmp a b = 0 → cmp b c = 0 → cmp a c = 0
  trans_lt : ∀ a ∈ l, ∀ b ∈ l, ∀ c ∈ l, cmp a b < 0 → cmp b c < 0 → cmp a c < 0
  trans_gt : ∀ a ∈ l, ∀ b ∈ l, ∀ c ∈ l, 0 < cmp a b → 0 < cmp b c → 0 < cmp a c

/-- A sort that orders by every comparison that is consistent. -/
structure LawfulSort (sort : (α → α → Int) → List α → List α) : Prop where
  perm : ∀ cmp l, Consistent cmp l → (sort cmp l).Perm l
  ordered : ∀ cmp l, Consistent cmp l → (sort cmp l).Pairwise fun a b => cmp a b ≤ 0

/-- What comes after another is what the other comes before. -/
theorem Consistent.neg_of_pos (h : Consistent cmp l) {a b : α} (ha : a ∈ l) (hb : b ∈ l)
    (hab : 0 < cmp a b) : cmp b a < 0 := by
  rcases lt_trichotomy (cmp b a) 0 with hlt | heq | hgt
  · exact hlt
  · have := h.symm b hb a ha heq
    omega
  · have := h.trans_gt a ha b hb a ha hab hgt
    have := h.refl a ha
    omega

theorem Consistent.strictWeakOn (h : Consistent cmp l) :
    StrictWeakOn (fun a b => decide (cmp a b < 0)) l := by
  have htie : ∀ a ∈ l, ∀ b ∈ l, Tie (fun a b => decide (cmp a b < 0)) a b → cmp a b = 0 := by
    intro a ha b hb ⟨hab, hba⟩
    have hab := of_decide_eq_false hab
    have hba := of_decide_eq_false hba
    by_contra hne
    exact hba (h.neg_of_pos ha hb (by omega))
  refine ⟨fun a ha => ?_, fun a ha b hb c hc hab hbc => ?_, fun a ha b hb c hc hab hbc => ?_⟩
  · have := h.refl a ha
    simp [this]
  · exact decide_eq_true (h.trans_lt a ha b hb c hc (of_decide_eq_true hab) (of_decide_eq_true hbc))
  · have hac := h.trans_eq a ha b hb c hc (htie a ha b hb hab) (htie b hb c hc hbc)
    have hca := h.symm a ha c hc hac
    simp [Tie, hac, hca]

/-- **A stable sort keeps the promise.** -/
theorem lawful_sortStable :
    LawfulSort fun (cmp : α → α → Int) l => sortStable (fun a b => decide (cmp a b < 0)) l := by
  refine ⟨fun cmp l _ => List.mergeSort_perm _ _, fun cmp l h => ?_⟩
  refine List.Pairwise.imp_of_mem ?_ h.strictWeakOn.pairwise_sortStable
  intro a b ha hb hba
  by_contra hpos
  have := h.neg_of_pos (mem_sortStable.mp ha) (mem_sortStable.mp hb) (by omega)
  exact absurd this (of_decide_eq_false hba)

/-! ## 2. Comparisons that never call two elements equal -/

/-- A comparison that says of any two elements which one comes first. -/
structure Decisive (cmp : α → α → Int) (l : List α) : Prop where
  neg : ∀ a ∈ l, ∀ b ∈ l, cmp b a = - cmp a b
  eq : ∀ a ∈ l, ∀ b ∈ l, cmp a b = 0 → a = b

theorem Decisive.perm (h : Decisive cmp l) (hp : o.Perm l) : Decisive cmp o :=
  ⟨fun a ha b hb => h.neg a (hp.mem_iff.mp ha) b (hp.mem_iff.mp hb),
    fun a ha b hb => h.eq a (hp.mem_iff.mp ha) b (hp.mem_iff.mp hb)⟩

theorem Decisive.refl (h : Decisive cmp l) {a : α} (ha : a ∈ l) : cmp a a = 0 := by
  have := h.neg a ha a ha
  omega

/-- In an order there are no three elements that follow each other around. -/
theorem no_cycle (h : Decisive cmp o) (ho : o.Pairwise fun a b => cmp a b < 0) {a b c : α}
    (ha : a ∈ o) (hb : b ∈ o) (hc : c ∈ o) (hab : cmp a b < 0) (hbc : cmp b c < 0)
    (hca : cmp c a < 0) : False := by
  induction o with
  | nil => cases ha
  | cons x o ih =>
      obtain ⟨hx, ho'⟩ := List.pairwise_cons.mp ho
      -- what comes before the first element is nothing
      have hfirst : ∀ y ∈ x :: o, ¬ cmp y x < 0 := by
        intro y hy hyx
        rcases List.mem_cons.mp hy with rfl | hm
        · have := h.refl (a := y) List.mem_cons_self
          omega
        · have := h.neg y hy x List.mem_cons_self
          have := hx y hm
          omega
      have htail : ∀ y ∈ x :: o, ∀ z ∈ x :: o, cmp z y < 0 → y ∈ o := by
        intro y hy z hz hzy
        rcases List.mem_cons.mp hy with rfl | hm
        · exact absurd hzy (hfirst z hz)
        · exact hm
      have ha' := htail a ha c hc hca
      have hb' := htail b hb a ha hab
      have hc' := htail c hc b hb hbc
      have h' : Decisive cmp o :=
        ⟨fun y hy z hz => h.neg y (List.mem_cons_of_mem x hy) z (List.mem_cons_of_mem x hz),
          fun y hy z hz => h.eq y (List.mem_cons_of_mem x hy) z (List.mem_cons_of_mem x hz)⟩
      exact ih h' ho' ha' hb' hc'

/-- A comparison that says which of two comes first is consistent if it leads on. -/
theorem Decisive.consistent (h : Decisive cmp l)
    (htrans : ∀ a ∈ l, ∀ b ∈ l, ∀ c ∈ l, cmp a b < 0 → cmp b c < 0 → cmp a c < 0) :
    Consistent cmp l := by
  refine ⟨fun a ha => h.refl ha, fun a ha b hb hab => ?_, fun a ha b hb c hc hab hbc => ?_,
    htrans, fun a ha b hb c hc hab hbc => ?_⟩
  · have := h.neg a ha b hb
    omega
  · obtain rfl := h.eq a ha b hb hab
    exact hbc
  · have hba := h.neg a ha b hb
    have hcb := h.neg b hb c hc
    have hca := h.neg a ha c hc
    have := htrans c hc b hb a ha (by omega) (by omega)
    omega

/-- Three elements that do not follow each other around are in order. -/
theorem Decisive.lt_of_no_cycle (h : Decisive cmp l) {a b c : α} (ha : a ∈ l) (hb : b ∈ l)
    (hc : c ∈ l) (hab : cmp a b < 0) (hbc : cmp b c < 0) (hcycle : ¬ cmp c a < 0) :
    cmp a c < 0 := by
  rcases lt_trichotomy (cmp a c) 0 with hlt | heq | hgt
  · exact hlt
  · obtain rfl := h.eq a ha c hc heq
    have := h.neg a ha b hb
    omega
  · have := h.neg a ha c hc
    omega

/-- **Where there is an order, the comparison is consistent.** -/
theorem consistent_of_pairwise (h : Decisive cmp l) (hp : o.Perm l)
    (ho : o.Pairwise fun a b => cmp a b < 0) : Consistent cmp l :=
  h.consistent fun _ ha _ hb _ hc hab hbc =>
    h.lt_of_no_cycle ha hb hc hab hbc fun hca =>
      no_cycle (h.perm hp) ho (hp.mem_iff.mpr ha) (hp.mem_iff.mpr hb) (hp.mem_iff.mpr hc) hab hbc hca

section Sorting

variable {sort : (α → α → Int) → List α → List α}

/-- **That order is what a sort gives.** -/
theorem LawfulSort.sort_eq (hs : LawfulSort sort) (h : Decisive cmp l) (hp : o.Perm l)
    (ho : o.Pairwise fun a b => cmp a b < 0) : sort cmp l = o := by
  have hc := consistent_of_pairwise h hp ho
  have hperm := hs.perm cmp l hc
  have hle : o.Pairwise fun a b => cmp a b ≤ 0 := ho.imp fun hlt => hlt.le
  refine List.Perm.eq_of_pairwise ?_ (hs.ordered cmp l hc) hle (hperm.trans hp.symm)
  intro a b ha hb hab hba
  have ha := hperm.mem_iff.mp ha
  have hb := hp.mem_iff.mp hb
  refine h.eq a ha b hb ?_
  have := h.neg a ha b hb
  omega

/-- What a sort gives is an order, if the comparison is consistent. -/
theorem LawfulSort.pairwise_lt (hs : LawfulSort sort) (h : Decisive cmp l) (hnd : l.Nodup)
    (hc : Consistent cmp l) : (sort cmp l).Pairwise fun a b => cmp a b < 0 := by
  have hperm := hs.perm cmp l hc
  have hne : (sort cmp l).Pairwise (· ≠ ·) := hperm.nodup_iff.mpr hnd
  refine List.Pairwise.imp_of_mem ?_ ((hs.ordered cmp l hc).and hne)
  intro a b ha hb ⟨hle, hab⟩
  rcases lt_or_eq_of_le hle with hlt | heq
  · exact hlt
  · exact absurd (h.eq a (hperm.mem_iff.mp ha) b (hperm.mem_iff.mp hb) heq) hab

end Sorting

end DevDashboard.Lib
