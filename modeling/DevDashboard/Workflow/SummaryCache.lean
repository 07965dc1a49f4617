/-
  File:      DevDashboard/Workflow/SummaryCache.lean
  Subject:   THE SUMMARY CACHE (`pkg/workflow/summary_cache.go`).

  An entry is served when the metadata record and the first history entry just read are the ones
  it was stored with, byte for byte. What each operation can do to the entries is said once:

  * `mem_of_get` -- a summary served comes from an entry with those bytes;
  * `mem_put`, `mem_prune` -- an entry after `put` is the new one or an old one, an entry after
    `prune` is an old one;
  * `cacheKey_inj`, `cacheKey_inj_ns` -- the key determines the instance, for app-ids and
    namespaces without a NUL.
-/
import DevDashboard.Workflow.Types
import DevDashboard.StateStore.Store

namespace DevDashboard.Workflow

open Lib StateStore

/-- `maxCachedSummaries`. -/
def maxCachedSummaries : Nat := 20000

/-- `cachedSummary`. -/
structure CachedSummary where
  ns : Str
  appID : Str
  record : Bytes
  first : Bytes
  summary : ExecutionSummary

/-- `summaryCache`: every key once. -/
structure SummaryCache where
  max : Nat
  entries : List (Str × CachedSummary)
  nodup : (entries.map Prod.fst).Nodup

/-- `newSummaryCache`. -/
def newSummaryCache (max : Nat) : SummaryCache := ⟨max, [], List.nodup_nil⟩

/-- The separator of a cache key. -/
def nul : Char := '\x00'

/-- `cacheKey`. -/
def cacheKey (ns appID id : Str) : Str := ns ++ [nul] ++ appID ++ [nul] ++ id

namespace SummaryCache

/-- `get`: a missing metadata record is a miss. `bytes.Equal` does not tell a missing value from
    an empty one. -/
def get (c : SummaryCache) (key : Str) (record first : Option Bytes) : Option ExecutionSummary :=
  match record with
  | none => none
  | some r =>
      match c.entries.lookup key with
      | none => none
      | some e => if e.record = r ∧ e.first = first.getD [] then some e.summary else none

/-- `put`: a new key that finds the cache full clears it. -/
def put (c : SummaryCache) (key : Str) (e : CachedSummary) : SummaryCache where
  max := c.max
  entries :=
    if key ∉ c.entries.map Prod.fst ∧ c.max ≤ c.entries.length then [(key, e)]
    else (key, e) :: c.entries.filter fun x => x.1 ≠ key
  nodup := by
    split
    · simp
    · rw [List.map_cons, List.nodup_cons]
      refine ⟨?_, c.nodup.sublist (List.filter_sublist.map Prod.fst)⟩
      simp only [List.mem_map, List.mem_filter]
      rintro ⟨x, ⟨-, hx⟩, hk⟩
      simp [hk] at hx

/-- `prune`. -/
def prune (c : SummaryCache) (ns appID : Str) (keep : List Str) : SummaryCache where
  max := c.max
  entries := c.entries.filter fun x =>
    decide (x.2.ns ≠ ns ∨ (appID ≠ [] ∧ x.2.appID ≠ appID) ∨ x.1 ∈ keep)
  nodup := c.nodup.sublist (List.filter_sublist.map Prod.fst)

/-- **A summary served comes from an entry with the bytes just read.** -/
theorem mem_of_get {c : SummaryCache} {key : Str} {record first : Option Bytes}
    {sum : ExecutionSummary} (h : c.get key record first = some sum) :
    ∃ e, (key, e) ∈ c.entries ∧ record = some e.record ∧ first.getD [] = e.first ∧
      e.summary = sum := by
  unfold get at h
  cases record with
  | none => cases h
  | some r =>
      simp only at h
      cases hl : c.entries.lookup key with
      | none => simp [hl] at h
      | some e =>
          simp only [hl] at h
          split at h
          · rename_i he
            obtain ⟨rfl, he⟩ := he
            exact ⟨e, List.lookup_eq_some_iff.mp hl |>.elim fun _ ⟨_, h, _⟩ => by simp [h], rfl,
              he.symm, Option.some.inj h⟩
          · cases h

/-- An entry just stored is served for its bytes. -/
theorem get_put_self (c : SummaryCache) (key : Str) (e : CachedSummary) {first : Option Bytes}
    (hf : first.getD [] = e.first) : (c.put key e).get key (some e.record) first = some e.summary := by
  have hl : (c.put key e).entries.lookup key = some e := by
    unfold put
    split <;> simp
  simp [get, hl, hf]

theorem mem_put {c : SummaryCache} {key k : Str} {e x : CachedSummary}
    (h : (k, x) ∈ (c.put key e).entries) : (k = key ∧ x = e) ∨ (k, x) ∈ c.entries := by
  unfold put at h
  simp only at h
  split at h
  · exact .inl (by simpa using h)
  · rcases List.mem_cons.mp h with h | h
    · exact .inl (by simpa using h)
    · exact .inr (List.mem_filter.mp h).1

theorem mem_prune {c : SummaryCache} {ns appID k : Str} {keep : List Str} {x : CachedSummary}
    (h : (k, x) ∈ (c.prune ns appID keep).entries) : (k, x) ∈ c.entries :=
  (List.mem_filter.mp h).1

end SummaryCache

/-- Within one namespace the key determines the instance. -/
theorem cacheKey_inj {ns app id app' id' : Str} (ha : nul ∉ app) (ha' : nul ∉ app')
    (h : cacheKey ns app id = cacheKey ns app' id') : app = app' ∧ id = id' := by
  simp only [cacheKey, List.append_assoc, List.cons_append, List.nil_append] at h
  exact Str.append_cons_inj ha ha' (List.cons.inj (List.append_cancel_left h)).2

theorem cacheKey_inj_ns {ns ns' app id app' id' : Str} (hns : nul ∉ ns) (hns' : nul ∉ ns')
    (h : cacheKey ns app id = cacheKey ns' app' id') : ns = ns' := by
  simp only [cacheKey, List.append_assoc, List.cons_append, List.nil_append] at h
  exact (Str.append_cons_inj hns hns' h).1

end DevDashboard.Workflow
