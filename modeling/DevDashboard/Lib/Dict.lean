/-
  File:      DevDashboard/Lib/Dict.lean
  Subject:   FINITE MAPS, as the list of their entries in the order of the keys.

  Every map has one such list, so equal lists are equal maps (`Dict.ext_get`), and going through
  the list is going through the keys in order.

  * `get_put_self`, `get_put_of_ne` -- what is read after an entry is written;
  * `get_erase_self`, `get_erase_of_ne` -- what is read after an entry is taken out;
  * `mem_entries_iff` -- the entries are what is read.
-/
import Mathlib.Data.List.Pairwise
import Mathlib.Order.Basic
import Mathlib.Order.Lattice

namespace DevDashboard.Lib

variable {κ α : Type} [LinearOrder κ]

/-- A finite map. -/
structure Dict (κ α : Type) [LinearOrder κ] where
  entries : List (κ × α)
  sorted : entries.Pairwise fun x y => x.1 < y.1

namespace Dict

instance [DecidableEq α] : DecidableEq (Dict κ α) := fun a b =>
  decidable_of_iff (a.entries = b.entries)
    ⟨fun h => by cases a; cases b; cases h; rfl, fun h => h ▸ rfl⟩

def empty : Dict κ α := ⟨[], .nil⟩

def get (d : Dict κ α) (k : κ) : Option α := d.entries.lookup k

/-- An entry put in its place; one of the same key is replaced. -/
def insert (k : κ) (v : α) : List (κ × α) → List (κ × α)
  | [] => [(k, v)]
  | x :: l =>
      if k < x.1 then (k, v) :: x :: l
      else if k = x.1 then (k, v) :: l
      else x :: insert k v l

theorem mem_insert {k : κ} {v : α} {l : List (κ × α)} {x : κ × α} (h : x ∈ insert k v l) :
    x = (k, v) ∨ x ∈ l := by
  induction l with
  | nil => exact .inl (List.mem_singleton.mp h)
  | cons y l ih =>
      unfold insert at h
      split at h
      · exact List.mem_cons.mp h
      · split at h
        · rcases List.mem_cons.mp h with h | h
          · exact .inl h
          · exact .inr (List.mem_cons_of_mem y h)
        · rcases List.mem_cons.mp h with h | h
          · exact .inr (h ▸ List.mem_cons_self)
          · exact (ih h).imp_right (List.mem_cons_of_mem y)

theorem pairwise_insert {l : List (κ × α)} (k : κ) (v : α)
    (h : l.Pairwise fun x y => x.1 < y.1) : (insert k v l).Pairwise fun x y => x.1 < y.1 := by
  induction l with
  | nil => exact List.pairwise_singleton _ _
  | cons y l ih =>
      obtain ⟨hy, hl⟩ := List.pairwise_cons.mp h
      unfold insert
      split
      · rename_i hk
        refine List.pairwise_cons.mpr ⟨fun x hx => ?_, h⟩
        rcases List.mem_cons.mp hx with rfl | hx
        · exact hk
        · exact hk.trans (hy x hx)
      · rename_i hk
        split
        · rename_i heq
          exact List.pairwise_cons.mpr ⟨fun x hx => heq ▸ hy x hx, hl⟩
        · rename_i hne
          refine List.pairwise_cons.mpr ⟨fun x hx => ?_, ih hl⟩
          rcases mem_insert hx with rfl | hx
          · exact lt_of_le_of_ne (not_lt.mp hk) (Ne.symm hne)
          · exact hy x hx

/-- The map with one entry written. -/
def put (d : Dict κ α) (k : κ) (v : α) : Dict κ α :=
  ⟨insert k v d.entries, pairwise_insert k v d.sorted⟩

theorem lookup_insert (k j : κ) (v : α) {l : List (κ × α)}
    (h : l.Pairwise fun x y => x.1 < y.1) :
    (insert k v l).lookup j = if j = k then some v else l.lookup j := by
  induction l with
  | nil =>
      by_cases hj : j = k
      · simp [insert, hj]
      · simp [insert, hj, List.lookup_cons, beq_false_of_ne hj]
  | cons y l ih =>
      obtain ⟨hy, hl⟩ := List.pairwise_cons.mp h
      unfold insert
      split
      · by_cases hj : j = k
        · simp [hj]
        · rw [List.lookup_cons, beq_false_of_ne hj, if_neg hj]
      · split
        · rename_i heq
          by_cases hj : j = k
          · simp [hj]
          · rw [List.lookup_cons, beq_false_of_ne hj, if_neg hj, List.lookup_cons,
              beq_false_of_ne (heq ▸ hj)]
        · rename_i hne
          rw [List.lookup_cons, List.lookup_cons, ih hl]
          by_cases hjy : j = y.1
          · have hyk : y.1 ≠ k := Ne.symm hne
            simp [hjy, hyk]
          · rw [beq_false_of_ne hjy]

@[simp] theorem get_empty (k : κ) : (empty : Dict κ α).get k = none := rfl

@[simp] theorem get_put_self (d : Dict κ α) (k : κ) (v : α) : (d.put k v).get k = some v := by
  unfold get put
  rw [lookup_insert k k v d.sorted, if_pos rfl]

theorem get_put_of_ne (d : Dict κ α) {k j : κ} (v : α) (h : j ≠ k) :
    (d.put k v).get j = d.get j := by
  unfold get put
  rw [lookup_insert k j v d.sorted, if_neg h]

theorem lookup_eq_none_of_lt {k : κ} {l : List (κ × α)} (h : ∀ x ∈ l, k < x.1) :
    l.lookup k = none := by
  induction l with
  | nil => rfl
  | cons y l ih =>
      obtain ⟨hy, hl⟩ := List.forall_mem_cons.mp h
      rw [List.lookup_cons, beq_false_of_ne hy.ne]
      exact ih hl

theorem entries_eq_of_lookup {l m : List (κ × α)} (hl : l.Pairwise fun x y => x.1 < y.1)
    (hm : m.Pairwise fun x y => x.1 < y.1) (h : ∀ k, l.lookup k = m.lookup k) : l = m := by
  induction l generalizing m with
  | nil =>
      cases m with
      | nil => rfl
      | cons y m =>
          have hk := h y.1
          rw [List.lookup_cons_self] at hk
          cases hk
  | cons x l ih =>
      obtain ⟨hx, hl'⟩ := List.pairwise_cons.mp hl
      cases m with
      | nil =>
          have hk := h x.1
          rw [List.lookup_cons_self] at hk
          cases hk
      | cons y m =>
          obtain ⟨hy, hm'⟩ := List.pairwise_cons.mp hm
          -- the smaller of the two first keys would be missing from the other list
          have hkey : x.1 = y.1 := by
            rcases lt_trichotomy x.1 y.1 with hlt | heq | hlt
            · have hn : (y :: m).lookup x.1 = none :=
                lookup_eq_none_of_lt (List.forall_mem_cons.mpr ⟨hlt, fun z hz => hlt.trans (hy z hz)⟩)
              rw [← h x.1, List.lookup_cons_self] at hn
              cases hn
            · exact heq
            · have hn : (x :: l).lookup y.1 = none :=
                lookup_eq_none_of_lt (List.forall_mem_cons.mpr ⟨hlt, fun z hz => hlt.trans (hx z hz)⟩)
              rw [h y.1, List.lookup_cons_self] at hn
              cases hn
          have hval : x.2 = y.2 := by
            have hk := h x.1
            rw [List.lookup_cons_self, hkey, List.lookup_cons_self] at hk
            exact Option.some.inj hk
          have hxy : x = y := Prod.ext hkey hval
          refine hxy ▸ congrArg (x :: ·) (ih hl' hm' fun k => ?_)
          by_cases hk : k = x.1
          · rw [hk, lookup_eq_none_of_lt hx, hkey, lookup_eq_none_of_lt hy]
          · have hh := h k
            rwa [List.lookup_cons, beq_false_of_ne hk, List.lookup_cons,
              beq_false_of_ne (hkey ▸ hk)] at hh

/-- **Maps that read the same are equal.** -/
theorem ext_get {d e : Dict κ α} (h : ∀ k, d.get k = e.get k) : d = e := by
  obtain ⟨l, hl⟩ := d
  obtain ⟨m, hm⟩ := e
  congr
  exact entries_eq_of_lookup hl hm h

/-- The map without the entry of a key. -/
def erase (d : Dict κ α) (k : κ) : Dict κ α :=
  ⟨d.entries.filter fun x => decide (x.1 ≠ k), d.sorted.sublist List.filter_sublist⟩

theorem lookup_filter_ne (k j : κ) (l : List (κ × α)) :
    (l.filter fun x => decide (x.1 ≠ k)).lookup j = if j = k then none else l.lookup j := by
  induction l with
  | nil => simp
  | cons x l ih =>
      by_cases hx : x.1 = k
      · rw [List.filter_cons_of_neg (by simp [hx]), ih, List.lookup_cons]
        split
        · rfl
        · rename_i hj
          rw [beq_false_of_ne (hx ▸ hj)]
      · rw [List.filter_cons_of_pos (by simp [hx]), List.lookup_cons, List.lookup_cons, ih]
        by_cases hj : j = x.1
        · simp [hj, hx]
        · rw [beq_false_of_ne hj]

@[simp] theorem get_erase_self (d : Dict κ α) (k : κ) : (d.erase k).get k = none := by
  unfold get erase
  rw [lookup_filter_ne, if_pos rfl]

theorem get_erase_of_ne (d : Dict κ α) {k j : κ} (h : j ≠ k) : (d.erase k).get j = d.get j := by
  unfold get erase
  rw [lookup_filter_ne, if_neg h]

/-- **The entries are what is read.** -/
theorem mem_entries_iff {d : Dict κ α} {k : κ} {v : α} : (k, v) ∈ d.entries ↔ d.get k = some v := by
  obtain ⟨l, hl⟩ := d
  unfold get
  induction l with
  | nil => simp
  | cons x l ih =>
      obtain ⟨hx, hl'⟩ := List.pairwise_cons.mp hl
      rw [List.mem_cons, List.lookup_cons]
      by_cases hk : k = x.1
      · have hnot : (k, v) ∉ l := fun hm => absurd (hk ▸ hx _ hm) (lt_irrefl _)
        rw [beq_iff_eq.mpr hk]
        constructor
        · intro h
          rcases h with h | h
          · rw [← h]
          · exact absurd h hnot
        · intro h
          exact .inl (Prod.ext hk (Option.some.inj h).symm)
      · rw [beq_false_of_ne hk]
        constructor
        · intro h
          rcases h with h | h
          · exact absurd (congrArg Prod.fst h) hk
          · exact (ih hl').mp h
        · intro h
          exact .inr ((ih hl').mpr h)

end Dict

end DevDashboard.Lib
