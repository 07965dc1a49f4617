/-
  File:      DevDashboard/Server/GuardRails.lean
  Subject:   HOW FAR A FILTERED LIST SCANS (`List` of `pkg/workflow/service.go` and of
             `pkg/state/service.go`, `parseListQuery` of `pkg/server/workflows.go`,
             `parseStateQuery` of `pkg/server/state.go`).

  Both lists are loops over key pages (`LoopFill`) with one cap. The cap is tested after a whole
  page was received, and counts keys, not pages.

  * `pageSizeOf_le` -- the page sizes the API admits;
  * `workflow_listLoop_eq`, `state_listLoop_eq` -- the two loops are loops of the library;
  * `guardRails_iff` -- when the rails hold, of both: a condition on the pages of the store;
  * `pagesFit_of_fullPages` -- stores with full pages meet it for the page sizes up to 200 and those
    that divide 2000;
  * `received_lt_page_over` -- what holds in any case.
-/
import DevDashboard.Lib.LoopFill
import DevDashboard.State.Service
import DevDashboard.StateStore.Translate
import DevDashboard.Workflow.Walk

namespace DevDashboard.Server

open Lib StateStore

/-! ## 1. The limit of a query -/

def maxListPageSize : Int := 500

/-- What `parseListQuery` and `parseStateQuery` make of `limit`. -/
def pageSizeOf (limit : Str) : Int :=
  if limit = [] then 0
  else
    match parseInt limit with
    | none => 0
    | some n => if maxListPageSize < n then maxListPageSize else if 0 < n then n else 0

theorem pageSizeOf_le (limit : Str) : pageSizeOf limit ≤ maxListPageSize := by
  unfold pageSizeOf maxListPageSize
  split
  · decide
  · split
    · decide
    · split
      · exact le_refl _
      · split <;> omega

/-! ## 2. The rails -/

/-- What is promised of a list call: `received n` are the keys it got from `Keys` in `n` rounds,
    `result n` its rows if it is done by then. -/
structure GuardRails {ε α : Type} (pageSize : Int) (received : Nat → List Str)
    (result : Nat → Option (Except ε (List α))) : Prop where
  keys : ∀ n, ((received n).length : Int) ≤ min (10 * pageSize) 2000
  ends : ∃ n, result n ≠ none
  rows : ∀ n rows, result n = some (.ok rows) → (rows.length : Int) ≤ 2 * pageSize

/-- The first `n` pages are enough: they give a page of rows, or one of them cannot be loaded. -/
def Enough {ε σ : Type} (L : LoopFill ε Str Str σ) (size : σ → Nat) (token : Str) (st₀ : σ)
    (pageSize : Int) (n : Nat) : Prop :=
  ∀ st, L.gathered n token st₀ = .ok st → pageSize ≤ size st

/-- The pages of the store fit the cap: where their keys go past it without meeting it, the pages
    before were enough; and before there are empty pages without end, the keys have come up to the
    cap or the pages were enough. -/
structure PagesFit {ε σ : Type} (L : LoopFill ε Str Str σ) (size : σ → Nat) (token : Str) (st₀ : σ)
    (pageSize : Int) : Prop where
  fits : ∀ n, (L.total n token : Int) < min (10 * pageSize) 2000 →
    min (10 * pageSize) 2000 < (L.total (n + 1) token : Int) → Enough L size token st₀ pageSize n
  ends : ∀ n t, L.tokenAfter n token = some t → L.EndlessBlank t →
    min (10 * pageSize) 2000 ≤ (L.total n token : Int) ∨ Enough L size token st₀ pageSize n

section Rails

variable {ε σ α : Type} {L : LoopFill ε Str Str σ} {st₀ : σ} {token : Str} {pageSize : Int}
  {result : Nat → Option (Except ε (List α))}

/-- **The rails of a loop**: `size` counts what it has collected, a page at most in each round, and
    it is full from a page size on. The rows are no more than what was collected. -/
theorem loop_guardRails_iff (size : σ → Nat) (hps : 0 < pageSize)
    (hcap : L.cap = min (10 * pageSize) 2000)
    (hpage : ∀ tok, ((L.page tok).length : Int) ≤ pageSize)
    (hfull : ∀ st, L.full st = true ↔ pageSize ≤ (size st : Int)) (h0 : size st₀ = 0)
    (hnil : ∀ st, L.absorb st [] = .ok st)
    (habsorb : ∀ st keys st', L.absorb st keys = .ok st' →
      size st ≤ size st' ∧ size st' ≤ size st + keys.length)
    (hdone : ∀ n, result n = none ↔ (L.run n ⟨token, 0, st₀⟩).2 = none)
    (hrows : ∀ n rows, result n = some (.ok rows) → ∃ st next,
      (L.run n ⟨token, 0, st₀⟩).2 = some (.ok (st, next)) ∧ rows.length ≤ size st) :
    GuardRails pageSize (fun n => (L.run n ⟨token, 0, st₀⟩).1) result ↔
      PagesFit L size token st₀ pageSize := by
  have hnot : ∀ st, L.full st = false ↔ (size st : Int) < pageSize := fun st => by
    rw [← Bool.not_eq_true, hfull, not_le]
  have hf0 : L.full st₀ = false := (hnot st₀).mpr (by omega)
  have hc : 0 < L.cap := by omega
  have hkeep : ∀ st keys st', L.absorb st keys = .ok st' → L.full st = true → L.full st' = true := by
    intro st keys st' ha hf
    rw [hfull] at hf ⊢
    have := (habsorb st keys st' ha).1
    omega
  have hkeys := LoopFill.keepsCap_iff token hkeep hf0 hc
  have hends := LoopFill.ends_pages_iff token hkeep hnil hf0 hc
  rw [hcap] at hkeys hends
  simp only [hfull] at hkeys hends
  simp only [ne_eq, ← hdone] at hends
  constructor
  · refine fun h => ⟨hkeys.mp h.keys, fun n t ht he => ?_⟩
    by_cases hlt : (L.total n token : Int) < min (10 * pageSize) 2000
    · exact .inr (hends.mp h.ends n t ht he hlt)
    · exact .inl (not_lt.mp hlt)
  · intro h
    refine ⟨hkeys.mpr h.fits, hends.mpr fun n t ht he hlt => ?_, fun n rows hres => ?_⟩
    · exact (h.ends n t ht he).resolve_left (not_le.mpr hlt)
    · obtain ⟨st, next, hrun, hlen⟩ := hrows n rows hres
      obtain ⟨r, hr, ha⟩ := LoopFill.exists_round_of_ok hrun
      -- the last round was not full, and added a page at most
      have hbefore := (hnot r.state).mp (LoopFill.not_full_of_reaches hr hf0 hc).1
      have hlast := (habsorb _ _ _ ha).2
      have hp := hpage r.token
      omega

/-- **Full pages**: they fit the cap of every page size up to 200 and of those that divide 2000. -/
theorem pagesFit_of_fullPages {size : σ → Nat} (hps : 0 < pageSize)
    (h : L.FullPages pageSize.toNat) (hdvd : pageSize ≤ 200 ∨ pageSize ∣ 2000) :
    PagesFit L size token st₀ pageSize := by
  have hm : ((pageSize.toNat : Nat) : Int) = pageSize := Int.toNat_of_nonneg hps.le
  -- the cap is a number of pages
  obtain ⟨k, hk⟩ : ∃ k : Nat, min (10 * pageSize) 2000 = ((k * pageSize.toNat : Nat) : Int) := by
    rcases le_or_gt pageSize 200 with hle | hgt
    · exact ⟨10, by omega⟩
    · obtain ⟨k, hk⟩ := hdvd.resolve_left (not_le.mpr hgt)
      refine ⟨k.toNat, ?_⟩
      have hpos : 0 < k := by
        by_contra hn
        have := mul_nonpos_of_nonneg_of_nonpos hps.le (not_lt.mp hn)
        omega
      rw [Nat.cast_mul, Int.toNat_of_nonneg hpos.le, hm, mul_comm k, ← hk]
      omega
  refine ⟨fun n hlt hgt => ?_, fun n t _ he => ?_⟩
  · rw [hk, Nat.cast_lt] at hlt hgt
    exact absurd (h.total_succ_le hlt) (not_le.mpr hgt)
  · exact absurd he (h.not_endlessBlank (by omega))

end Rails

/-- The scan cap of an admitted page size: the 64-bit product does not overflow. -/
theorem min_bmod {pageSize : Int} (h0 : 0 < pageSize) (h : pageSize ≤ maxListPageSize) :
    min (Int.bmod (pageSize * 10) (2 ^ 64)) 2000 = min (10 * pageSize) 2000 := by
  unfold maxListPageSize at h
  rw [Int.bmod_eq_of_le (by omega) (by omega), Int.mul_comm]

/-! ## 3. The workflow list -/

section Workflows

open Workflow

variable (cd : Codec) (others : Others) (s : StoreReads) (ns : Str) (toLower : Str → Str)
  (q : Workflow.ListQuery)

/-- What the loop of `List` carries: `seen`, the items, and the shared cache. -/
abbrev WorkflowScan := List Str × List ExecutionSummary × Shared

/-- The loop of the workflow `List`. -/
def workflowFill : LoopFill LoadError Str Str WorkflowScan where
  read token := metaKeys s ns q.appID token q.effectivePageSize.toNat
  stop := []
  absorb st keys :=
    let refs := refsFromKeys keys st.1
    match loadSummaries cd others s ns refs.1 st.2.2 with
    | .error e => .error e
    | .ok (results, x') => .ok (refs.2, st.2.1 ++ Workflow.accepted toLower q results, x')
  full st := !q.filtered || decide (q.effectivePageSize ≤ st.2.1.length)
  cap := q.maxScan

/-- What `List` returns of what the loop ends with. -/
def workflowResult (out : Except LoadError (WorkflowScan × Str)) :
    Except LoadError (ListResult × Shared) :=
  match out with
  | .error e => .error e
  | .ok (st, next) => .ok (⟨st.2.1, next⟩, st.2.2)

/-- **The loop of `List` is that loop.** -/
theorem workflow_listLoop_eq (fuel : Nat) (token : Str) (scanned : Nat) (seen : List Str)
    (items : List ExecutionSummary) (x : Shared) :
    Workflow.listLoop cd others s ns toLower q fuel token scanned seen items x =
      ((workflowFill cd others s ns toLower q).run fuel
        ⟨token, scanned, (seen, items, x)⟩).2.map workflowResult := by
  induction fuel generalizing token scanned seen items x with
  | zero => rfl
  | succ fuel ih =>
      rw [Workflow.listLoop, LoopFill.run]
      simp only [LoopFill.next, workflowFill]
      cases metaKeys s ns q.appID token q.effectivePageSize.toNat with
      | error e => rfl
      | ok answer =>
          obtain ⟨keys, next⟩ := answer
          simp only
          cases loadSummaries cd others s ns (refsFromKeys keys seen).1 x with
          | error e => rfl
          | ok loaded =>
              obtain ⟨results, x'⟩ := loaded
              simp only [ListQuery.stops, Bool.or_eq_true, decide_eq_true_eq, Nat.cast_add, or_assoc]
              split
              · rfl
              · rw [← Nat.cast_add, ih]
                rfl

theorem length_refsFromKeys_le (keys seen : List Str) :
    (refsFromKeys keys seen).1.length ≤ keys.length := by
  induction keys generalizing seen with
  | nil => exact le_refl 0
  | cons k keys ih =>
      rw [refsFromKeys]
      split
      · exact Nat.le_succ_of_le (ih seen)
      · rename_i r hr
        split
        · exact Nat.le_succ_of_le (ih seen)
        · exact Nat.succ_le_succ (ih _)

theorem length_loadEach (metas : List (Str × Option Bytes)) (refs : List InstanceRef) (x : Shared) :
    (loadEach cd others s ns metas refs x).1.length = refs.length := by
  induction refs generalizing x with
  | nil => rfl
  | cons r refs ih => exact congrArg (· + 1) (ih _)

theorem length_loadSummaries {refs : List InstanceRef} {x x' : Shared}
    {results : List (Option ExecutionSummary)}
    (h : loadSummaries cd others s ns refs x = .ok (results, x')) :
    results.length = refs.length := by
  unfold loadSummaries at h
  split at h
  · rename_i he
    cases h
    rw [he]
    rfl
  · cases hm : s.bulkGet (refs.map (·.metaKey ns) ++ refs.map (·.firstKey ns)) with
    | error e =>
        rw [hm] at h
        cases h
    | ok metas =>
        rw [hm] at h
        have hr := (Prod.mk.inj (Except.ok.inj h)).1
        rw [← hr, length_loadEach]

theorem length_finishPage (r : ListResult) : (finishPage q r).items.length ≤ r.items.length := by
  have hsort : (sortByCreated r.items).length = r.items.length := List.length_mergeSort _
  unfold finishPage
  simp only
  split
  · exact (List.length_take_le' _ _).trans hsort.le
  · exact hsort.le

theorem effectivePageSize_le {pageSize : Int} (h : pageSize ≤ maxListPageSize) :
    0 < (if pageSize ≤ 0 then 50 else pageSize) ∧
      (if pageSize ≤ 0 then 50 else pageSize) ≤ maxListPageSize := by
  unfold maxListPageSize at h ⊢
  split <;> omega

variable {cd others s ns toLower q}

/-- The rails of the workflow list. -/
theorem workflow_guardRails_iff {svc : Workflow.Service} (hs : svc.store = some s)
    (hkeys : ∀ pattern token n keys next, 0 < n → s.keys pattern token n = .ok (keys, next) →
      keys.length ≤ n)
    (hf : q.filtered = true) (hq : q.pageSize ≤ maxListPageSize) (x : Shared) :
    GuardRails q.effectivePageSize
        (fun n => ((workflowFill cd others s (svc.effectiveNS q.appID) toLower q).run n
          ⟨q.pageToken, 0, ([], [], x)⟩).1)
        (fun n => (svc.list cd toLower others n q x).map (Except.map fun r => r.1.items)) ↔
      PagesFit (workflowFill cd others s (svc.effectiveNS q.appID) toLower q)
        (fun st : WorkflowScan => st.2.1.length) q.pageToken ([], [], x) q.effectivePageSize := by
  have hps : 0 < q.effectivePageSize := (effectivePageSize_le hq).1
  have hps' : q.effectivePageSize ≤ maxListPageSize := (effectivePageSize_le hq).2
  have hlist : ∀ n, svc.list cd toLower others n q x =
      ((workflowFill cd others s (svc.effectiveNS q.appID) toLower q).run n
        ⟨q.pageToken, 0, ([], [], x)⟩).2.map fun out =>
          (workflowResult out).map fun r => (finishPage q r.1, r.2) := by
    intro n
    have hloop := workflow_listLoop_eq cd others s (svc.effectiveNS q.appID) toLower q n
      q.pageToken 0 [] [] x
    rw [Nat.cast_zero] at hloop
    rw [Workflow.Service.list, hs]
    simp only [hloop]
    cases ((workflowFill cd others s (svc.effectiveNS q.appID) toLower q).run n
      ⟨q.pageToken, 0, ([], [], x)⟩).2 with
    | none => rfl
    | some out =>
        cases out with
        | error e => rfl
        | ok r => rfl
  refine loop_guardRails_iff (fun st : WorkflowScan => st.2.1.length) hps ?_ ?_ ?_ ?_ ?_ ?_ ?_ ?_
  · exact min_bmod hps hps'
  · intro token
    unfold LoopFill.page
    split
    · exact hps.le
    · rename_i keys next hread
      have := hkeys _ _ _ _ _ (by omega) hread
      omega
  · intro st
    simp [workflowFill, hf]
  · rfl
  · intro st
    simp [workflowFill, refsFromKeys, loadSummaries, Workflow.accepted]
  · intro st keys st' h
    simp only [workflowFill] at h
    split at h
    · cases h
    · rename_i results x' hload
      cases h
      have h1 := length_loadSummaries _ _ _ _ hload
      have h2 := length_refsFromKeys_le keys st.1
      have h3 := @Workflow.length_accepted_le toLower q results
      simp only [List.length_append]
      constructor <;> omega
  · intro n
    rw [hlist, Option.map_eq_none_iff, Option.map_eq_none_iff]
  · intro n rows h
    rw [hlist, Option.map_map, Option.map_eq_some_iff] at h
    obtain ⟨out, hrun, hout⟩ := h
    cases out with
    | error e => cases hout
    | ok r =>
        refine ⟨r.1, r.2, hrun, ?_⟩
        rw [← Except.ok.inj hout]
        exact length_finishPage q _

end Workflows

/-! ## 4. The state list -/

section Records

open State

/-- The loop of the state `List`: it carries the keys that were kept. -/
def stateFill (s : Store) (q : State.ListQuery) : LoopFill StateError Str Str (List Str) where
  read token := s.keys (listPattern q.appID q.search) token q.effectivePageSize
  stop := []
  absorb matched keys := .ok (keys.foldl (addKey q.includeInternal) matched)
  full matched := q.includeInternal || decide (q.effectivePageSize ≤ matched.length)
  cap := q.maxScan

/-- **The loop of `List` is that loop.** -/
theorem state_listLoop_eq (s : Store) (q : State.ListQuery) (fuel : Nat) (token : Str)
    (scanned : Nat) (matched : List Str) :
    State.listLoop s q fuel token scanned matched =
      ((stateFill s q).run fuel ⟨token, scanned, matched⟩).2 := by
  induction fuel generalizing token scanned matched with
  | zero => rfl
  | succ fuel ih =>
      rw [State.listLoop, LoopFill.run]
      simp only [LoopFill.next, stateFill]
      cases s.keys (listPattern q.appID q.search) token q.effectivePageSize with
      | error e => rfl
      | ok answer =>
          obtain ⟨keys, next⟩ := answer
          simp only [Bool.or_eq_true, decide_eq_true_eq, or_assoc]
          split
          · rfl
          · rw [ih]
            rfl

theorem length_foldl_addKey_le (includeInternal : Bool) (keys matched : List Str) :
    (keys.foldl (addKey includeInternal) matched).length ≤ matched.length + keys.length := by
  induction keys generalizing matched with
  | nil => exact le_refl _
  | cons k keys ih =>
      have hone : (addKey includeInternal matched k).length ≤ matched.length + 1 := by
        unfold addKey
        split_ifs <;> simp
      have := ih (addKey includeInternal matched k)
      rw [List.foldl_cons, List.length_cons]
      omega

theorem length_itemsOf_le (matched : List Str) (recs : List State.Record) :
    (itemsOf matched recs).length ≤ matched.length := by
  rw [(itemsOf_perm matched recs).length_eq]
  exact List.length_filterMap_le _ _

theorem length_le_foldl_addKey (includeInternal : Bool) (keys matched : List Str) :
    matched.length ≤ (keys.foldl (addKey includeInternal) matched).length := by
  induction keys generalizing matched with
  | nil => exact le_refl _
  | cons k keys ih =>
      have hone : matched.length ≤ (addKey includeInternal matched k).length := by
        unfold addKey
        split_ifs <;> simp
      exact hone.trans (ih _)

/-- The rails of the state list. -/
theorem state_guardRails_iff {svc : State.Service} {s : Store}
    {records : List Str → Except StateError (List State.Record)} (hs : svc.ready = .ok (s, records))
    {q : State.ListQuery}
    (hkeys : ∀ pattern token n keys next, 0 < n → s.keys pattern token n = .ok (keys, next) →
      (keys.length : Int) ≤ n)
    (hf : q.includeInternal = false) (hq : q.pageSize ≤ maxListPageSize) :
    GuardRails q.effectivePageSize
        (fun n => ((stateFill s q).run n ⟨q.pageToken, 0, []⟩).1)
        (fun n => (svc.list n q).map (Except.map fun r => r.items)) ↔
      PagesFit (stateFill s q) List.length q.pageToken [] q.effectivePageSize := by
  have hps : 0 < q.effectivePageSize := (effectivePageSize_le hq).1
  have hps' : q.effectivePageSize ≤ maxListPageSize := (effectivePageSize_le hq).2
  have hlist : ∀ n, svc.list n q = ((stateFill s q).run n ⟨q.pageToken, 0, []⟩).2.map fun out =>
      out.bind fun r => (records r.1).map fun recs => ⟨itemsOf r.1 recs, r.2⟩ := by
    intro n
    rw [State.Service.list, hs]
    simp only [state_listLoop_eq]
    cases ((stateFill s q).run n ⟨q.pageToken, 0, []⟩).2 with
    | none => rfl
    | some out =>
        cases out with
        | error e => rfl
        | ok r =>
            simp only [Option.map_some, Except.bind]
            cases records r.1 <;> rfl
  refine loop_guardRails_iff List.length hps ?_ ?_ ?_ ?_ ?_ ?_ ?_ ?_
  · exact min_bmod hps hps'
  · intro token
    unfold LoopFill.page
    split
    · exact hps.le
    · rename_i keys next hread
      exact hkeys _ _ _ _ _ hps hread
  · intro st
    simp [stateFill, hf]
  · rfl
  · intro st
    rfl
  · intro st keys st' h
    rw [← Except.ok.inj h]
    exact ⟨length_le_foldl_addKey _ _ _, length_foldl_addKey_le _ _ _⟩
  · intro n
    rw [hlist, Option.map_eq_none_iff, Option.map_eq_none_iff]
  · intro n rows h
    rw [hlist, Option.map_map, Option.map_eq_some_iff] at h
    obtain ⟨out, hrun, hout⟩ := h
    cases out with
    | error e => cases hout
    | ok r =>
        refine ⟨r.1, r.2, hrun, ?_⟩
        simp only [Function.comp_apply, Except.bind] at hout
        cases hrec : records r.1 with
        | error e =>
            rw [hrec] at hout
            cases hout
        | ok recs =>
            rw [hrec] at hout
            rw [← Except.ok.inj hout]
            exact length_itemsOf_le _ _

end Records

/-! ## 5. Both -/

section Both

open Workflow (StoreReads Shared Others Codec)

variable {cd : Codec} {others : Others} {toLower : Str → Str} {svc : Workflow.Service}
  {s : StoreReads} {q : Workflow.ListQuery} {ssvc : State.Service} {t : State.Store}
  {records : List Str → Except State.StateError (List State.Record)} {sq : State.ListQuery}

/-- **When the rails hold.** For every store whose key pages are no longer than requested, every
    `limit` and every query with a filter: a workflow list and a state list each receive no more
    keys than the cap, end, and return at most two pages of rows exactly if the pages of the store
    fit the cap. -/
theorem guardRails_iff (hs : svc.store = some s) (ht : ssvc.ready = .ok (t, records))
    (hskeys : ∀ pattern token n keys next, 0 < n → s.keys pattern token n = .ok (keys, next) →
      keys.length ≤ n)
    (htkeys : ∀ pattern token n keys next, 0 < n → t.keys pattern token n = .ok (keys, next) →
      (keys.length : Int) ≤ n)
    (hf : q.filtered = true) (hsf : sq.includeInternal = false) {limit slimit : Str}
    (hq : q.pageSize = pageSizeOf limit) (hsq : sq.pageSize = pageSizeOf slimit) (x : Shared) :
    (GuardRails q.effectivePageSize
        (fun n => ((workflowFill cd others s (svc.effectiveNS q.appID) toLower q).run n
          ⟨q.pageToken, 0, ([], [], x)⟩).1)
        (fun n => (svc.list cd toLower others n q x).map (Except.map fun r => r.1.items)) ↔
      PagesFit (workflowFill cd others s (svc.effectiveNS q.appID) toLower q)
        (fun st : WorkflowScan => st.2.1.length) q.pageToken ([], [], x) q.effectivePageSize) ∧
    (GuardRails sq.effectivePageSize
        (fun n => ((stateFill t sq).run n ⟨sq.pageToken, 0, []⟩).1)
        (fun n => (ssvc.list n sq).map (Except.map fun r => r.items)) ↔
      PagesFit (stateFill t sq) List.length sq.pageToken [] sq.effectivePageSize) :=
  ⟨workflow_guardRails_iff hs hskeys hf (hq ▸ pageSizeOf_le limit) x,
    state_guardRails_iff ht htkeys hsf (hsq ▸ pageSizeOf_le slimit)⟩

/-- A store that answers with three full pages. -/
def steady (key token : Str) (n : Nat) : List Str × Str :=
  (List.replicate n key, if token.length < 2 then 'x' :: token else [])

def steadyReads : StoreReads where
  keys _ token n := .ok (steady "k".toList token n)
  get _ := .ok none
  bulkGet _ := .ok []

def steadyStore : State.Store where
  keys _ token n := .ok (steady "a||b||c".toList token n.toNat)
  records := some fun _ => .ok []
  get _ := .ok none
  set _ _ := .ok ()

def trickleShared : Shared := ⟨Workflow.newSummaryCache Workflow.maxCachedSummaries, 0⟩

/-- A workflow and a state list over these stores, both with `limit=2`: the rails hold. -/
theorem guardRails_iff_steady :
    GuardRails 2
      (fun n => ((workflowFill Workflow.tinyCodec (fun _ c => c) steadyReads [] id
        { pageSize := 2 }).run n ⟨[], 0, ([], [], trickleShared)⟩).1)
      (fun n => ((Workflow.Service.mk (some steadyReads) [] none).list Workflow.tinyCodec id
        (fun _ c => c) n { pageSize := 2 } trickleShared).map (Except.map fun r => r.1.items)) ∧
    GuardRails 2 (fun n => ((stateFill steadyStore { pageSize := 2 }).run n ⟨[], 0, []⟩).1)
      (fun n => ((State.Service.mk (some steadyStore)).list n { pageSize := 2 }).map
        (Except.map fun r => r.items)) := by
  have hrails := @guardRails_iff Workflow.tinyCodec (fun _ c => c) id ⟨some steadyReads, [], none⟩
    steadyReads { pageSize := 2 } ⟨some steadyStore⟩ steadyStore _ { pageSize := 2 } rfl rfl
    (by
      intro pattern token n keys next _ h
      obtain rfl : List.replicate n _ = keys := congrArg Prod.fst (Except.ok.inj h)
      exact (List.length_replicate ..).le)
    (by
      intro pattern token n keys next hn h
      obtain rfl : List.replicate n.toNat _ = keys := congrArg Prod.fst (Except.ok.inj h)
      rw [List.length_replicate]
      omega)
    rfl rfl "2".toList "2".toList (by decide) (by decide) trickleShared
  refine ⟨hrails.1.mpr (pagesFit_of_fullPages (by decide) ⟨?_, fun token => ?_⟩ (by decide)),
    hrails.2.mpr (pagesFit_of_fullPages (by decide) ⟨?_, fun token => ?_⟩ (by decide))⟩
  · intro token keys next h _
    obtain rfl : List.replicate 2 _ = keys := congrArg Prod.fst (Except.ok.inj h)
    exact List.length_replicate ..
  · exact (List.length_replicate ..).le
  · intro token keys next h _
    obtain rfl : List.replicate 2 _ = keys := congrArg Prod.fst (Except.ok.inj h)
    exact List.length_replicate ..
  · exact (List.length_replicate ..).le

/-- A store that answers with one key, and then with two keys ten times. -/
def trickle (key token : Str) (n : Nat) : List Str × Str :=
  if token = [] then ([key].take n, "x".toList)
  else ([key, key].take n, if token.length < 10 then 'x' :: token else [])

def trickleReads : StoreReads where
  keys _ token n := .ok (trickle "k".toList token n)
  get _ := .ok none
  bulkGet _ := .ok []

def trickleStore : State.Store where
  keys _ token n := .ok (trickle "a||b||c".toList token n.toNat)
  records := some fun _ => .ok []
  get _ := .ok none
  set _ _ := .ok ()

/-- The two loops over these stores, for pages of two. -/
def trickleWorkflows : LoopFill Workflow.LoadError Str Str WorkflowScan :=
  workflowFill Workflow.tinyCodec (fun _ c => c) trickleReads [] id { pageSize := 2 }

def trickleRecords : LoopFill State.StateError Str Str (List Str) :=
  stateFill trickleStore { pageSize := 2 }

/-- Both lists receive twenty-one keys from these stores, with a cap of twenty. -/
theorem trickle_over_cap :
    ¬ GuardRails 2 (fun n => (trickleWorkflows.run n ⟨[], 0, ([], [], trickleShared)⟩).1)
        (fun n => ((Workflow.Service.mk (some trickleReads) [] none).list Workflow.tinyCodec id
          (fun _ c => c) n { pageSize := 2 } trickleShared).map (Except.map fun r => r.1.items)) ∧
    ¬ GuardRails 2 (fun n => (trickleRecords.run n ⟨[], 0, []⟩).1)
        (fun n => ((State.Service.mk (some trickleStore)).list n { pageSize := 2 }).map
          (Except.map fun r => r.items)) := by
  have hw : (trickleWorkflows.run 11 ⟨[], 0, ([], [], trickleShared)⟩).1.length = 21 := by
    decide +kernel
  have hr : (trickleRecords.run 11 ⟨[], 0, []⟩).1.length = 21 := by decide +kernel
  refine ⟨fun h => ?_, fun h => ?_⟩
  · have := h.keys 11
    simp only [hw] at this
    omega
  · have := h.keys 11
    simp only [hr] at this
    omega

/-- **What holds in any case**: a loop of either list receives less than a page more than its cap. -/
theorem received_lt_page_over {ε σ : Type} {L : LoopFill ε Str Str σ} {st₀ : σ} {token : Str}
    {m : Nat} (hpage : ∀ tok, (L.page tok).length ≤ m) (hcap : 0 < L.cap) (n : Nat) :
    ((L.run n ⟨token, 0, st₀⟩).1.length : Int) < L.cap + m := by
  have := L.received_lt (r := ⟨token, 0, st₀⟩) hpage hcap n
  simpa using this

end Both

end DevDashboard.Server
