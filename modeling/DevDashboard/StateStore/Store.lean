/-
  File:      DevDashboard/StateStore/Store.lean
  Subject:   THE CONTENT OF A STATE STORE AND ITS READS (`pkg/statestore/store.go`).

  A store holds finitely many keys, each with one value. `Keys` answers a `LIKE` pattern with the
  keys that match it, in the order of the backend; the order of `entries` stands for it.
-/
import DevDashboard.StateStore.Keys
import Mathlib.Data.List.Nodup
import Mathlib.Data.List.Dedup

namespace DevDashboard.StateStore

open Lib Lib.Like

abbrev Bytes := List UInt8

/-- What a store holds: every key once. -/
structure Content where
  entries : List (Str × Bytes)
  nodup : (entries.map Prod.fst).Nodup

namespace Content

def empty : Content := ⟨[], List.nodup_nil⟩

def keys (c : Content) : List Str := c.entries.map Prod.fst

/-- `Get`: the value of a key, `none` (nil) if it is missing. -/
def get (c : Content) (k : Str) : Option Bytes := c.entries.lookup k

/-- `Keys(pattern, "", 0)`: every key that matches. -/
def keysLike (c : Content) (pattern : Str) : List Str := c.keys.filter (like pattern)

/-- `BulkGet` on a store nobody writes to meanwhile: an entry for every requested key, nil when
    the key is missing. -/
def bulkGet (c : Content) (ks : List Str) : List (Str × Option Bytes) :=
  ks.dedup.map fun k => (k, c.get k)

/-- `Delete`: the key is gone, every other entry stays. -/
def delete (c : Content) (k : Str) : Content where
  entries := c.entries.filter fun e => e.1 ≠ k
  nodup := by
    exact c.nodup.sublist (List.filter_sublist.map Prod.fst)

theorem mem_keysLike {c : Content} {pattern k : Str} :
    k ∈ c.keysLike pattern ↔ k ∈ c.keys ∧ like pattern k = true := List.mem_filter

theorem get_eq_none_iff {c : Content} {k : Str} : c.get k = none ↔ k ∉ c.keys := by
  unfold get keys
  induction c.entries with
  | nil => simp
  | cons e l ih =>
      obtain ⟨x, v⟩ := e
      by_cases h : k = x
      · simp [h]
      · have hb : (k == x) = false := beq_eq_false_iff_ne.mpr h
        simp [List.lookup_cons, hb, h, ih]

theorem mem_keys_of_get {c : Content} {k : Str} {v : Bytes} (h : c.get k = some v) :
    k ∈ c.keys := by
  by_contra hk
  rw [get_eq_none_iff.mpr hk] at h
  cases h

theorem keys_delete {c : Content} {k x : Str} : x ∈ (c.delete k).keys ↔ x ∈ c.keys ∧ x ≠ k := by
  simp only [keys, delete, List.mem_map, List.mem_filter]
  constructor
  · rintro ⟨e, ⟨he, hk⟩, rfl⟩
    exact ⟨⟨e, he, rfl⟩, by simpa using hk⟩
  · rintro ⟨⟨e, he, rfl⟩, hk⟩
    exact ⟨e, ⟨he, by simpa using hk⟩, rfl⟩

theorem get_delete_self (c : Content) (k : Str) : (c.delete k).get k = none :=
  get_eq_none_iff.mpr fun h => (keys_delete.mp h).2 rfl

theorem get_delete_of_ne {c : Content} {k x : Str} (h : x ≠ k) : (c.delete k).get x = c.get x := by
  unfold get delete
  simp only
  induction c.entries with
  | nil => rfl
  | cons e l ih =>
      obtain ⟨y, v⟩ := e
      by_cases hy : y = k
      · have hb : (x == y) = false := beq_eq_false_iff_ne.mpr (hy ▸ h)
        rw [List.filter_cons_of_neg (by simpa using hy), ih, List.lookup_cons, hb]
      · rw [List.filter_cons_of_pos (by simpa using hy), List.lookup_cons, List.lookup_cons, ih]

end Content

end DevDashboard.StateStore
