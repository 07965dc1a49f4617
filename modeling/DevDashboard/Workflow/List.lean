/-
  File:      DevDashboard/Workflow/List.lean
  Subject:   LISTING AND COUNTING INSTANCES (`pkg/workflow/service.go`: `List`, `Stats`,
             `loadSummaries`, `refsFromKeys`, `matches`).

  The summary cache is shared with other calls: before each access of this one they may have
  changed it (`others`, by the number of the access). The goroutines of one `loadSummaries` are
  run one after another here; their own accesses in another order are among what `others` does.

  The loop of `List` runs on fuel; `none` is a loop cut short. `strings.ToLower` is a parameter.
-/
import DevDashboard.Workflow.Load
import DevDashboard.Workflow.SummaryCache
import DevDashboard.Lib.Paging

namespace DevDashboard.Workflow

open Lib StateStore

/-! ## 1. Queries -/

/-- `defaultPageSize`. -/
def defaultPageSize : Int := 50

/-- `filteredScanPageMultiple`. -/
def filteredScanPageMultiple : Int := 10

/-- `maxFilteredScanKeys`. -/
def maxFilteredScanKeys : Int := 2000

structure ListQuery where
  appID : Str := []
  status : List Status := []
  search : Str := []
  pageSize : Int := 0
  pageToken : Str := []
  includeChildren : Bool := false

/-- The page size `List` works with. -/
def ListQuery.effectivePageSize (q : ListQuery) : Int :=
  if q.pageSize ≤ 0 then defaultPageSize else q.pageSize

/-- Whether a predicate of the query can reject an instance. -/
def ListQuery.filtered (q : ListQuery) : Bool :=
  decide (q.status ≠ []) || decide (q.search ≠ []) || !q.includeChildren

/-- The scan cap. The product is one of 64-bit integers. -/
def ListQuery.maxScan (q : ListQuery) : Int :=
  min (Int.bmod (q.effectivePageSize * filteredScanPageMultiple) (2 ^ 64)) maxFilteredScanKeys

/-- `matches`. -/
def matchesQuery (toLower : Str → Str) (s : ExecutionSummary) (q : ListQuery) : Bool :=
  !(!q.includeChildren && decide (s.parentInstanceID ≠ [])) &&
    (decide (q.status = []) || q.status.any fun st => decide (s.status = st)) &&
    (decide (q.search = []) || decide (toLower q.search <:+: toLower s.instanceID) ||
      decide (toLower q.search <:+: toLower s.name))

/-- `afterOrZero`. -/
def afterOrZero : Option Time → Option Time → Bool
  | none, _ => false
  | some _, none => true
  | some a, some b => decide (b < a)

/-- `sort.SliceStable` by `CreatedAt`, newest first. -/
def sortByCreated (items : List ExecutionSummary) : List ExecutionSummary :=
  items.mergeSort fun a b => !afterOrZero b.createdAt a.createdAt

/-- The pattern `metaKeys` scans for. -/
def metaPattern (ns appID : Str) : Str :=
  if appID = [] then allInstanceMetaPattern ns else instanceMetaPattern ns appID

/-- `metaKeys`. -/
def metaKeys (s : StoreReads) (ns appID token : Str) (pageSize : Nat) :
    Except LoadError (List Str × Str) := s.keys (metaPattern ns appID) token pageSize

/-! ## 2. References -/

structure InstanceRef where
  appID : Str
  id : Str
  deriving DecidableEq

namespace InstanceRef

/-- The metadata key of a reference. -/
def metaKey (ns : Str) (r : InstanceRef) : Str := StateStore.metaKey ns r.appID r.id

/-- The key of its first history entry. -/
def firstKey (ns : Str) (r : InstanceRef) : Str := instancePrefix ns r.appID r.id ++ historyKey 0

/-- What `refsFromKeys` records a reference by. -/
def dedupKey (r : InstanceRef) : Str := r.appID ++ ['/'] ++ r.id

/-- Its key in the summary cache. -/
def cacheKey (ns : Str) (r : InstanceRef) : Str := Workflow.cacheKey ns r.appID r.id

end InstanceRef

/-- `ParseAppID` and `ParseInstanceID` of one key. -/
def parseRef (k : Str) : Option InstanceRef :=
  match parseAppID k with
  | none => none
  | some app =>
      match parseInstanceID k with
      | none => none
      | some id => some ⟨app, id⟩

/-- `refsFromKeys`, and `seen` as it leaves it. -/
def refsFromKeys : List Str → List Str → List InstanceRef × List Str
  | [], seen => ([], seen)
  | k :: ks, seen =>
      match parseRef k with
      | none => refsFromKeys ks seen
      | some r =>
          if r.dedupKey ∈ seen then refsFromKeys ks seen
          else
            let rest := refsFromKeys ks (r.dedupKey :: seen)
            (r :: rest.1, rest.2)

/-! ## 3. Loading summaries -/

/-- The shared cache, and how often this call has come to it. -/
structure Shared where
  cache : SummaryCache
  accesses : Nat

/-- What the other calls do to the cache before this one comes to it again. -/
abbrev Others := Nat → SummaryCache → SummaryCache

/-- The cache as this call finds it. -/
def Shared.arrive (others : Others) (x : Shared) : Shared :=
  ⟨others x.accesses x.cache, x.accesses + 1⟩

section Calls

variable (cd : Codec) (others : Others) (s : StoreReads) (ns : Str)

/-- What `loadSummaries` does for one reference: take the summary from the cache, or load the
    instance and store the summary if it came from the record. `none`: not `ok`. -/
def loadSummary (metas : List (Str × Option Bytes)) (r : InstanceRef) (x : Shared) :
    Option ExecutionSummary × Shared :=
  let record := (metas.lookup (r.metaKey ns)).join
  let first := (metas.lookup (r.firstKey ns)).join
  let x₁ := x.arrive others
  match x₁.cache.get (r.cacheKey ns) record first with
  | some sum => (some sum, x₁)
  | none =>
      match loadWithMeta cd s ns r.appID r.id record with
      | .error _ => (none, x₁)
      | .ok (ex, false) => (some ex.summary, x₁)
      | .ok (ex, true) =>
          let x₂ := x₁.arrive others
          let entry : CachedSummary :=
            ⟨ns, r.appID, record.getD [], first.getD [], ex.summary⟩
          (some ex.summary, { x₂ with cache := x₂.cache.put (r.cacheKey ns) entry })

/-- The references one after another. -/
def loadEach (metas : List (Str × Option Bytes)) :
    List InstanceRef → Shared → List (Option ExecutionSummary) × Shared
  | [], x => ([], x)
  | r :: rs, x =>
      let one := loadSummary cd others s ns metas r x
      let rest := loadEach metas rs one.2
      (one.1 :: rest.1, rest.2)

/-- `loadSummaries`. -/
def loadSummaries (refs : List InstanceRef) (x : Shared) :
    Except LoadError (List (Option ExecutionSummary) × Shared) :=
  if refs = [] then .ok ([], x)
  else do
    let metas ← s.bulkGet (refs.map (·.metaKey ns) ++ refs.map (·.firstKey ns))
    return loadEach cd others s ns metas refs x

/-! ## 4. `List` and `Stats` -/

structure ListResult where
  items : List ExecutionSummary
  nextToken : Str

/-- What one round of the loop adds to the items. -/
def accepted (toLower : Str → Str) (q : ListQuery) (results : List (Option ExecutionSummary)) :
    List ExecutionSummary := (results.filterMap id).filter (matchesQuery toLower · q)

/-- Whether the loop of `List` ends after a round: one round is enough when no filter is active,
    else it ends with a full page, with the keys, or at the scan cap. -/
def ListQuery.stops (q : ListQuery) (items : List ExecutionSummary) (next : Str) (scanned : Int) :
    Bool :=
  !q.filtered || decide (q.effectivePageSize ≤ items.length) || decide (next = []) ||
    decide (q.maxScan ≤ scanned)

/-- The loop of `List`: `fuel`, the token, keys scanned so far, `seen`, the items so far. -/
def listLoop (toLower : Str → Str) (q : ListQuery) :
    Nat → Str → Int → List Str → List ExecutionSummary → Shared →
      Option (Except LoadError (ListResult × Shared))
  | 0, _, _, _, _, _ => none
  | fuel + 1, token, scanned, seen, items, x =>
      match metaKeys s ns q.appID token q.effectivePageSize.toNat with
      | .error e => some (.error e)
      | .ok (keys, next) =>
          let refs := refsFromKeys keys seen
          match loadSummaries cd others s ns refs.1 x with
          | .error e => some (.error e)
          | .ok (results, x') =>
              let scanned' := scanned + keys.length
              let items' := items ++ accepted toLower q results
              if q.stops items' next scanned' then some (.ok (⟨items', next⟩, x'))
              else listLoop toLower q fuel next scanned' refs.2 items' x'

/-- The end of `List`: newest first, and at most a page when no filter is active. -/
def finishPage (q : ListQuery) (r : ListResult) : ListResult :=
  let sorted := sortByCreated r.items
  if !q.filtered && decide (q.effectivePageSize < sorted.length) then
    ⟨sorted.take q.effectivePageSize.toNat, r.nextToken⟩
  else ⟨sorted, r.nextToken⟩

end Calls

/-- `List`. -/
def Service.list (cd : Codec) (toLower : Str → Str) (others : Others) (svc : Service) (fuel : Nat)
    (q : ListQuery) (x : Shared) : Option (Except LoadError (ListResult × Shared)) :=
  match svc.store with
  | none => some (.error .noStore)
  | some s =>
      match listLoop cd others s (svc.effectiveNS q.appID) toLower q fuel q.pageToken 0 [] [] x with
      | some (.ok (r, x')) => some (.ok (finishPage q r, x'))
      | some (.error e) => some (.error e)
      | none => none

structure StatsResult where
  counts : Status → Nat
  total : Nat

/-- One counted row. -/
def StatsResult.add (res : StatsResult) (sum : ExecutionSummary) : StatsResult :=
  ⟨fun st => if st = sum.status then res.counts st + 1 else res.counts st, res.total + 1⟩

/-- `Stats`. -/
def Service.stats (cd : Codec) (toLower : Str → Str) (others : Others) (svc : Service)
    (q : ListQuery) (x : Shared) : Except LoadError (StatsResult × Shared) :=
  match svc.store with
  | none => .error .noStore
  | some s => do
      let searchQ : ListQuery := { search := q.search, includeChildren := q.includeChildren }
      let ns := svc.effectiveNS q.appID
      let (keys, _) ← metaKeys s ns q.appID [] 0
      let refs := (refsFromKeys keys []).1
      let (results, x₁) ← loadSummaries cd others s ns refs x
      let x₂ := x₁.arrive others
      let keep := refs.map (·.cacheKey ns)
      let counted := (accepted toLower searchQ results).foldl StatsResult.add ⟨fun _ => 0, 0⟩
      return (counted, { x₂ with cache := x₂.cache.prune ns q.appID keep })

/-- The rows a client gets that follows `NextToken` from `""`. -/
def Service.listAll (cd : Codec) (toLower : Str → Str) (others : Others) (svc : Service)
    (fuel : Nat) (q : ListQuery) (x : Shared) : Option (Except LoadError (List ExecutionSummary)) :=
  Paging.walk [] (fun token x =>
    match svc.list cd toLower others fuel { q with pageToken := token } x with
    | some (.ok (r, x')) => some (.ok (r.items, r.nextToken, x'))
    | some (.error e) => some (.error e)
    | none => none) fuel [] x

end DevDashboard.Workflow
