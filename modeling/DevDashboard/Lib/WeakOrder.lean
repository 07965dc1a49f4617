/-
  File:      DevDashboard/Lib/WeakOrder.lean
  Subject:   STABLE SORTING BY A COMPARISON FUNCTION (`sort.SliceStable`).

  A comparison may be a strict weak order on the elements of one list and none elsewhere. On the
  list it is then that of a number (`rank`): how many elements come before.

  * `lt_iff_rank_lt` -- a strict weak order compares ranks;
  * `pairwise_sortStable` -- the sorted list is in order, at every two places;
  * `forall₂_sortStable` -- it depends on the order of the list up to ties only.
-/
import Mathlib.Data.List.Sort
import Mathlib.Data.List.Forall2

namespace DevDashboard.Lib

variable {α : Type} {lt : α → α → Bool} {l : List α}

/-- Neither comes before the other. -/
def Tie (lt : α → α → Bool) (a b : α) : Prop := lt a b = false ∧ lt b a = false

/-- A strict weak order on the elements of a list. -/
structure StrictWeakOn (lt : α → α → Bool) (l : List α) : Prop where
  irrefl : ∀ a ∈ l, lt a a = false
  trans : ∀ a ∈ l, ∀ b ∈ l, ∀ c ∈ l, lt a b = true → lt b c = true → lt a c = true
  tie_trans : ∀ a ∈ l, ∀ b ∈ l, ∀ c ∈ l, Tie lt a b → Tie lt b c → Tie lt a c

/-- `sort.SliceStable`. -/
def sortStable (lt : α → α → Bool) (l : List α) : List α := l.mergeSort fun a b => !lt b a

/-- How many elements come before. -/
def rank (lt : α → α → Bool) (l : List α) (a : α) : Nat := l.countP fun x => lt x a

theorem rank_perm {l' : List α} (h : l.Perm l') : rank lt l = rank lt l' := by
  funext a
  exact h.countP_eq _

/-- What comes before neither of two is no way from the one to the other. -/
theorem StrictWeakOn.lt_or_lt (h : StrictWeakOn lt l) {a b c : α} (ha : a ∈ l) (hb : b ∈ l)
    (hc : c ∈ l) (hac : lt a c = true) : lt a b = true ∨ lt b c = true := by
  by_contra hn
  rw [not_or, Bool.not_eq_true, Bool.not_eq_true] at hn
  obtain ⟨hab, hbc⟩ := hn
  cases hba : lt b a with
  | true =>
      rw [h.trans b hb a ha c hc hba hac] at hbc
      cases hbc
  | false =>
      cases hcb : lt c b with
      | true =>
          rw [h.trans a ha c hc b hb hac hcb] at hab
          cases hab
      | false =>
          have htie := (h.tie_trans a ha b hb c hc ⟨hab, hba⟩ ⟨hbc, hcb⟩).1
          rw [hac] at htie
          cases htie

theorem countP_lt_countP {p q : α → Bool} (h : ∀ x ∈ l, p x = true → q x = true) {a : α}
    (ha : a ∈ l) (hp : p a = false) (hq : q a = true) : l.countP p < l.countP q := by
  obtain ⟨s, t, rfl⟩ := List.append_of_mem ha
  have hs : s.countP p ≤ s.countP q :=
    List.countP_mono_left fun x hx => h x (List.mem_append_left _ hx)
  have ht : t.countP p ≤ t.countP q :=
    List.countP_mono_left fun x hx => h x (List.mem_append_right _ (List.mem_cons_of_mem a hx))
  rw [List.countP_append, List.countP_append, List.countP_cons_of_neg (by simp [hp]),
    List.countP_cons_of_pos hq]
  omega

/-- **A strict weak order compares ranks.** -/
theorem StrictWeakOn.lt_iff_rank_lt (h : StrictWeakOn lt l) {a b : α} (ha : a ∈ l) (hb : b ∈ l) :
    lt a b = true ↔ rank lt l a < rank lt l b := by
  constructor
  · intro hab
    -- what is before `a` is before `b`, and so is `a`
    exact countP_lt_countP (fun x hx hxa => h.trans x hx a ha b hb hxa hab) ha (h.irrefl a ha) hab
  · intro hr
    by_contra hn
    rw [Bool.not_eq_true] at hn
    refine absurd hr (not_lt.mpr (List.countP_mono_left fun x hx hxb => ?_))
    rcases h.lt_or_lt hx ha hb hxb with hxa | hab
    · exact hxa
    · rw [hn] at hab
      cases hab

theorem StrictWeakOn.lt_eq_false_iff (h : StrictWeakOn lt l) {a b : α} (ha : a ∈ l) (hb : b ∈ l) :
    lt a b = false ↔ rank lt l b ≤ rank lt l a := by
  rw [← Bool.not_eq_true, h.lt_iff_rank_lt ha hb, not_lt]

theorem mem_sortStable {a : α} : a ∈ sortStable lt l ↔ a ∈ l := List.mem_mergeSort

/-- The ranks of a sorted list are its ranks, sorted. -/
theorem StrictWeakOn.map_rank_sortStable (h : StrictWeakOn lt l) :
    (sortStable lt l).map (rank lt l) = (l.map (rank lt l)).mergeSort fun m n => decide (m ≤ n) := by
  refine List.map_mergeSort fun a ha b hb => ?_
  rw [Bool.eq_iff_iff, Bool.not_eq_true', h.lt_eq_false_iff hb ha, decide_eq_true_eq]

/-- **A sorted list is in order**, at every two places. -/
theorem StrictWeakOn.pairwise_sortStable (h : StrictWeakOn lt l) :
    (sortStable lt l).Pairwise fun a b => lt b a = false := by
  have hranks : ((sortStable lt l).map (rank lt l)).Pairwise (· ≤ ·) := by
    rw [h.map_rank_sortStable]
    exact List.pairwise_mergeSort' (· ≤ ·) _
  refine List.Pairwise.imp_of_mem ?_ (List.pairwise_map.mp hranks)
  intro a b ha hb hab
  exact (h.lt_eq_false_iff (mem_sortStable.mp hb) (mem_sortStable.mp ha)).mpr hab

/-- **A sorted list depends on the order of the list up to ties only.** -/
theorem StrictWeakOn.forall₂_sortStable (h : StrictWeakOn lt l) {l' : List α} (hp : l.Perm l') :
    List.Forall₂ (Tie lt) (sortStable lt l) (sortStable lt l') := by
  have h' : StrictWeakOn lt l' := by
    refine ⟨fun a ha => h.irrefl a (hp.mem_iff.mpr ha), ?_, ?_⟩
    · exact fun a ha b hb c hc => h.trans a (hp.mem_iff.mpr ha) b (hp.mem_iff.mpr hb) c
        (hp.mem_iff.mpr hc)
    · exact fun a ha b hb c hc => h.tie_trans a (hp.mem_iff.mpr ha) b (hp.mem_iff.mpr hb) c
        (hp.mem_iff.mpr hc)
  have hranks : (sortStable lt l).map (rank lt l) = (sortStable lt l').map (rank lt l) := by
    rw [h.map_rank_sortStable, rank_perm hp, h'.map_rank_sortStable]
    have hperm := (List.mergeSort_perm (l.map (rank lt l')) fun m n => decide (m ≤ n)).trans
      ((hp.map (rank lt l')).trans (List.mergeSort_perm _ fun m n => decide (m ≤ n)).symm)
    exact hperm.eq_of_pairwise' (List.pairwise_mergeSort' (· ≤ ·) _)
      (List.pairwise_mergeSort' (· ≤ ·) _)
  have heq := List.forall₂_eq_eq_eq (α := Nat) ▸ hranks
  rw [List.forall₂_map_left_iff, List.forall₂_map_right_iff] at heq
  refine List.forall₂_iff_zip.mpr ⟨heq.length_eq, fun {a b} hab => ?_⟩
  have hrank := (List.forall₂_iff_zip.mp heq).2 hab
  obtain ⟨ha, hb⟩ := List.of_mem_zip hab
  have ha' := mem_sortStable.mp ha
  have hb' := hp.mem_iff.mpr (mem_sortStable.mp hb)
  exact ⟨(h.lt_eq_false_iff ha' hb').mpr hrank.ge, (h.lt_eq_false_iff hb' ha').mpr hrank.le⟩

end DevDashboard.Lib
