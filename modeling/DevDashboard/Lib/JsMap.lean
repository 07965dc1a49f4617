/-
  File:      DevDashboard/Lib/JsMap.lean
  Subject:   INSERTION-ORDERED MAPS (JavaScript's `Map`), as the list of their entries.

  `set` writes a new key at the end and an old one in its place. `lookup_set` says what is read
  afterwards, `nodup_set` that no key is there twice; then the pairs of a map, read into a new map,
  are the map again (`ofPairs_eq_self`).
-/
import Mathlib.Data.List.Induction
import Mathlib.Data.List.Nodup

namespace DevDashboard.Lib.JsMap

variable {κ α : Type} [DecidableEq κ]

/-- `Map.set`: a key keeps its place. -/
def set (k : κ) (v : α) : List (κ × α) → List (κ × α)
  | [] => [(k, v)]
  | p :: ps => if p.1 = k then (k, v) :: ps else p :: set k v ps

/-- `new Map(pairs)`. -/
def ofPairs (pairs : List (κ × α)) : List (κ × α) := pairs.foldl (fun m p => set p.1 p.2 m) []

variable {k j : κ} {v : α} {m : List (κ × α)}

theorem lookup_cons_ite (j : κ) (p : κ × α) (m : List (κ × α)) :
    (p :: m).lookup j = if j = p.1 then some p.2 else m.lookup j := by
  rw [List.lookup_cons]
  by_cases h : j = p.1
  · simp [h]
  · rw [if_neg h, beq_false_of_ne h]

/-- What is read after an entry is written. -/
theorem lookup_set (k j : κ) (v : α) (m : List (κ × α)) :
    (set k v m).lookup j = if j = k then some v else m.lookup j := by
  induction m with
  | nil => rw [set, lookup_cons_ite]
  | cons p m ih =>
      rw [set]
      by_cases hp : p.1 = k
      · rw [if_pos hp, lookup_cons_ite, lookup_cons_ite, hp]
        by_cases hj : j = k
        · rw [if_pos hj, if_pos hj]
        · rw [if_neg hj, if_neg hj, if_neg hj]
      · rw [if_neg hp, lookup_cons_ite, lookup_cons_ite, ih]
        by_cases hj : j = p.1
        · rw [if_pos hj, if_pos hj, if_neg (by rw [hj]; exact hp)]
        · rw [if_neg hj, if_neg hj]

theorem mem_keys_set : j ∈ (set k v m).map Prod.fst ↔ j = k ∨ j ∈ m.map Prod.fst := by
  induction m with
  | nil => simp [set]
  | cons p m ih =>
      rw [set]
      by_cases hp : p.1 = k
      · rw [if_pos hp, List.map_cons, List.map_cons, List.mem_cons, List.mem_cons, hp]
        exact ⟨fun h => h.elim .inl fun h => .inr (.inr h), fun h => h.elim .inl id⟩
      · rw [if_neg hp, List.map_cons, List.map_cons, List.mem_cons, List.mem_cons, ih]
        exact or_left_comm

theorem nodup_set (h : (m.map Prod.fst).Nodup) (k : κ) (v : α) :
    ((set k v m).map Prod.fst).Nodup := by
  induction m with
  | nil => exact List.nodup_singleton k
  | cons p m ih =>
      rw [List.map_cons, List.nodup_cons] at h
      rw [set]
      by_cases hp : p.1 = k
      · rw [if_pos hp, List.map_cons, List.nodup_cons]
        exact ⟨by rw [← hp]; exact h.1, h.2⟩
      · rw [if_neg hp, List.map_cons, List.nodup_cons, mem_keys_set]
        exact ⟨fun hm => hm.elim hp h.1, ih h.2⟩

/-- A new key is written at the end. -/
theorem set_of_not_mem (v : α) (h : k ∉ m.map Prod.fst) : set k v m = m ++ [(k, v)] := by
  induction m with
  | nil => rfl
  | cons p m ih =>
      rw [List.map_cons, List.mem_cons, not_or] at h
      rw [set, if_neg fun hp => h.1 hp.symm, ih h.2, List.cons_append]

/-- **The pairs of a map**, read into a new map, are the map. -/
theorem ofPairs_eq_self (h : (m.map Prod.fst).Nodup) : ofPairs m = m := by
  induction m using List.reverseRecOn with
  | nil => rfl
  | append_singleton m p ih =>
      rw [List.map_append, List.nodup_append] at h
      have hnew : p.1 ∉ m.map Prod.fst := fun hm => h.2.2 p.1 hm p.1 (by simp) rfl
      rw [ofPairs, List.foldl_append]
      change set p.1 p.2 (ofPairs m) = m ++ [p]
      rw [ih h.1, set_of_not_mem p.2 hnew]

end DevDashboard.Lib.JsMap
