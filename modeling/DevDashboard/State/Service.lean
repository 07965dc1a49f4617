/-
  File:      DevDashboard/State/Service.lean
  Subject:   LISTING AND WRITING STATE RECORDS (`pkg/state/service.go`, `pkg/state/value.go`,
             `pkg/statestore/record.go`).

  `List` scans key pages until its own page is full, the keys ran out or the scan cap is reached,
  and reads values last. The loop runs on fuel; `none` is a loop cut short. The backend's cursor,
  its bulk read and the reading of a timestamp are parameters.

  * `foldl_addKey` -- what a scan keeps: the keys that pass the filter, each once;
  * `listLoop_consumes` -- the loop takes whole key pages;
  * `keys_itemsOf`, `itemsOf_sorted` -- a page has a row for each key it keeps, sorted by key.
-/
import DevDashboard.State.Classify
import DevDashboard.StateStore.Store
import DevDashboard.StateStore.ConnInfo
import DevDashboard.Workflow.Load
import DevDashboard.Lib.Base64
import DevDashboard.Lib.Paging

namespace DevDashboard.State

open Lib StateStore
open Workflow (Time sortStrings)
open Url (Octets utf8)

/-! ## 1. Records -/

/-- `statestore.Record`. -/
structure Record where
  key : Str
  value : Bytes
  etag : Str := []
  ttlExpire : Option Time := none
  contentType : Str := []

/-- One answer of the backend's bulk read; `ttl` is its `ttlExpireTime` metadata. -/
structure BulkGetResponse where
  key : Str
  data : Option Bytes := none
  etag : Option Str := none
  ttl : Option Str := none
  contentType : Option Str := none
  error : Str := []

/-- `recordsFromBulk`: entries that could not be read or do not exist are left out. -/
def recordsFromBulk (parseTime : Str → Option Time) (resp : List BulkGetResponse) : List Record :=
  (resp.filter fun r => !(decide (r.error ≠ []) || (r.data.isNone && r.etag.isNone))).map fun r =>
    { key := r.key, value := r.data.getD [], etag := r.etag.getD []
      ttlExpire := r.ttl.bind parseTime, contentType := r.contentType.getD [] }

inductive StateError where
  | noStore
  | storeUnreachable (name conn : Str)
  | notBrowsable
  | existing (key : Str)
  | notFound
  | backend (text : Str)

/-- What the backend answers. `records` is missing for a store that cannot read in bulk. -/
structure Store where
  keys : Str → Str → Int → Except StateError (List Str × Str)
  records : Option (List Str → Except StateError (List Record))
  get : Str → Except StateError (Option Bytes)
  set : Str → Bytes → Except StateError Unit

/-- `ccStore.Records` over the backend's bulk read. -/
def ccRecords (parseTime : Str → Option Time)
    (bulkGet : List Str → Except StateError (List BulkGetResponse)) (keys : List Str) :
    Except StateError (List Record) :=
  if keys = [] then .ok []
  else (bulkGet keys).map (recordsFromBulk parseTime)

/-! ## 2. Rows -/

inductive Encoding where
  | text
  | base64
  deriving DecidableEq

structure Item where
  key : Str
  appID : Str
  logicalKey : Str
  kind : Kind
  preview : Str
  encoding : Encoding
  size : Nat
  etag : Str
  ttlExpiresAt : Option Time
  contentType : Str

/-- `renderValue`. Bytes are valid UTF-8 exactly if they are those of their runes. -/
def renderValue (b : Bytes) : Str × Encoding :=
  if utf8 (runes b) = b then (runes b, .text) else (Base64.encode b, .base64)

def previewChars : Nat := 200

/-- `preview`. -/
def preview (s : Str) : Str :=
  let line := [' '].intercalate (fields s)
  if line.length ≤ previewChars then line else line.take previewChars ++ ['…']

/-- `newItem`. -/
def newItem (p : KeyParts) (r : Record) : Item where
  key := r.key
  appID := p.appID
  logicalKey := p.logicalKey
  kind := p.kind
  preview := preview (renderValue r.value).1
  encoding := (renderValue r.value).2
  size := r.value.length
  etag := r.etag
  ttlExpiresAt := r.ttlExpire
  contentType := r.contentType

/-! ## 3. `List` -/

structure ListQuery where
  appID : Octets := []
  search : Octets := []
  pageToken : Str := []
  pageSize : Int := 0
  includeInternal : Bool := false

def defaultPageSize : Int := 50

def filteredScanPageMultiple : Int := 10

def maxFilteredScanKeys : Int := 2000

/-- The page size `List` works with. -/
def ListQuery.effectivePageSize (q : ListQuery) : Int :=
  if q.pageSize ≤ 0 then defaultPageSize else q.pageSize

/-- The scan cap. The product is one of 64-bit integers. -/
def ListQuery.maxScan (q : ListQuery) : Int :=
  min (Int.bmod (q.effectivePageSize * filteredScanPageMultiple) (2 ^ 64)) maxFilteredScanKeys

structure ListResult where
  items : List Item
  nextToken : Str

/-- Whether the filter for internal keys lets a key pass. -/
def passes (includeInternal : Bool) (k : Str) : Bool :=
  includeInternal || decide ((classify k).kind = .app)

/-- One key of the scan: `parts` has the keys of `matched`. -/
def addKey (includeInternal : Bool) (matched : List Str) (k : Str) : List Str :=
  if passes includeInternal k = false then matched
  else if k ∈ matched then matched
  else matched ++ [k]

/-- The loop of `List`: the keys it keeps, and the token behind the last key page. -/
def listLoop (s : Store) (q : ListQuery) :
    Nat → Str → Nat → List Str → Option (Except StateError (List Str × Str))
  | 0, _, _, _ => none
  | n + 1, token, scanned, matched =>
      match s.keys (listPattern q.appID q.search) token q.effectivePageSize with
      | .error e => some (.error e)
      | .ok (keys, next) =>
          let matched' := keys.foldl (addKey q.includeInternal) matched
          let scanned' := scanned + keys.length
          if q.includeInternal = true ∨ q.effectivePageSize ≤ matched'.length ∨ next = [] ∨
              q.maxScan ≤ scanned' then
            some (.ok (matched', next))
          else listLoop s q n next scanned' matched'

/-- `byKey[k]`: the last record with the key. -/
def byKey (recs : List Record) (k : Str) : Option Record :=
  recs.reverse.find? fun r => decide (r.key = k)

/-- `sort.Slice` by key. -/
def sortByKey (items : List Item) : List Item := items.mergeSort fun a b => decide (a.key ≤ b.key)

/-- The rows of the keys that were kept. A key without a record is left out. -/
def itemsOf (matched : List Str) (recs : List Record) : List Item :=
  sortByKey (matched.filterMap fun k => (byKey recs k).map (newItem (classify k)))

/-- `New`: `none` is the degraded entry without a store. -/
structure Service where
  store : Option Store

namespace Service

/-- `ready`: the store and its bulk read, or why the service cannot serve. -/
def ready (svc : Service) :
    Except StateError (Store × (List Str → Except StateError (List Record))) :=
  match svc.store with
  | none => .error .noStore
  | some s =>
      match s.records with
      | none => .error .notBrowsable
      | some records => .ok (s, records)

/-- `List`. -/
def list (svc : Service) (fuel : Nat) (q : ListQuery) : Option (Except StateError ListResult) :=
  match svc.ready with
  | .error e => some (.error e)
  | .ok (s, records) =>
      match listLoop s q fuel q.pageToken 0 [] with
      | none => none
      | some (.error e) => some (.error e)
      | some (.ok (matched, next)) =>
          match records matched with
          | .error e => some (.error e)
          | .ok recs => some (.ok ⟨itemsOf matched recs, next⟩)

/-- One prefix of the loop of `AppIDs`. -/
def addAppID (includeInternal : Bool) (ids : List Str) (k : Str) : List Str :=
  if (classify k).appID = [] then ids
  else if passes includeInternal k = false then ids
  else if (classify k).appID ∈ ids then ids
  else ids ++ [(classify k).appID]

/-- `AppIDs`. -/
def appIDs (svc : Service) (includeInternal : Bool) : Except StateError (List Str) := do
  let (s, _) ← svc.ready
  let (keys, _) ← s.keys ['%'] [] 0
  return sortStrings (keys.foldl (addAppID includeInternal) [])

/-- `Set`. -/
def set (svc : Service) (appID key : Str) (value : Octets) (overwrite : Bool) :
    Except StateError Unit := do
  let (s, _) ← svc.ready
  let existing ← if overwrite then pure none else s.get (composeKey appID key)
  if existing.isSome then throw (.existing (composeKey appID key))
  s.set (composeKey appID key) value

end Service

/-! ## 4. What a scan keeps -/

/-- The keys of a scan that pass. -/
def passing (includeInternal : Bool) (keys : List Str) : List Str :=
  keys.filter (passes includeInternal)

theorem passing_append (includeInternal : Bool) (a b : List Str) :
    passing includeInternal (a ++ b) = passing includeInternal a ++ passing includeInternal b :=
  List.filter_append a b

/-- **A scan over keys that are all different keeps those that pass, each once.** -/
theorem foldl_addKey {includeInternal : Bool} {keys matched : List Str} (hnd : keys.Nodup)
    (hnew : ∀ k ∈ keys, k ∉ matched) :
    keys.foldl (addKey includeInternal) matched = matched ++ passing includeInternal keys := by
  induction keys generalizing matched with
  | nil => simp [passing]
  | cons k keys ih =>
      obtain ⟨hk, hnd⟩ := List.nodup_cons.mp hnd
      obtain ⟨hkm, hnew⟩ := List.forall_mem_cons.mp hnew
      rw [List.foldl_cons]
      cases hp : passes includeInternal k with
      | false =>
          have hadd : addKey includeInternal matched k = matched := by simp [addKey, hp]
          rw [hadd, ih hnd hnew, passing, passing, List.filter_cons_of_neg (by simp [hp])]
      | true =>
          have hadd : addKey includeInternal matched k = matched ++ [k] := by simp [addKey, hp, hkm]
          have hnew' : ∀ x ∈ keys, x ∉ matched ++ [k] := by
            intro x hx hm
            rcases List.mem_append.mp hm with hm | hm
            · exact hnew x hx hm
            · exact hk (List.mem_singleton.mp hm ▸ hx)
          rw [hadd, ih hnd hnew', passing, passing, List.filter_cons_of_pos hp, List.append_assoc]
          rfl

theorem effectivePageSize_pos (q : ListQuery) : 0 < q.effectivePageSize := by
  unfold ListQuery.effectivePageSize
  split
  · decide
  · omega

/-- **The loop takes whole key pages**, and keeps what passes of them. -/
theorem listLoop_consumes {s : Store} {q : ListQuery} {token : Str} {pages : List (List Str)}
    (hpages : Paging.Pages [] (fun tok => s.keys (listPattern q.appID q.search) tok
      q.effectivePageSize) token pages) {matched : List Str}
    (hnd : (matched ++ pages.flatten).Nodup) {fuel : Nat} (hfuel : pages.length ≤ fuel)
    (scanned : Nat) :
    ∃ used rest next, pages = used ++ rest ∧ used ≠ [] ∧
      listLoop s q fuel token scanned matched =
        some (.ok (matched ++ passing q.includeInternal used.flatten, next)) ∧
      ((next = [] ∧ rest = []) ∨ (next ≠ [] ∧ Paging.Pages [] (fun tok => s.keys
        (listPattern q.appID q.search) tok q.effectivePageSize) next rest)) := by
  -- on the pages still to come; what was kept before is new to none of them
  induction hpages generalizing matched fuel scanned with
  | @last token ks hread =>
      cases fuel with
      | zero => cases hfuel
      | succ n =>
          rw [List.flatten_singleton] at hnd
          obtain ⟨-, hks, hdis⟩ := List.nodup_append.mp hnd
          have hfold := @foldl_addKey q.includeInternal _ _ hks
            fun k hk hm => hdis k hm k hk rfl
          refine ⟨[ks], [], [], rfl, by simp, ?_, .inl ⟨rfl, rfl⟩⟩
          rw [listLoop, hread]
          simp [hfold]
  | @more token next ks rest hread hne hrest ih =>
      cases fuel with
      | zero => cases hfuel
      | succ n =>
          rw [List.flatten_cons] at hnd
          obtain ⟨hm, hks', hdis⟩ := List.nodup_append.mp hnd
          have hks := (List.nodup_append.mp hks').1
          have hfold := @foldl_addKey q.includeInternal _ _ hks
            fun k hk hm => hdis k hm k (List.mem_append_left _ hk) rfl
          rw [listLoop, hread]
          simp only [hfold]
          split
          · refine ⟨[ks], rest, next, rfl, by simp, ?_, .inr ⟨hne, hrest⟩⟩
            simp
          · have hnd' : ((matched ++ passing q.includeInternal ks) ++ rest.flatten).Nodup := by
              rw [List.append_assoc]
              exact hnd.sublist ((List.Sublist.refl matched).append
                (List.filter_sublist.append (List.Sublist.refl rest.flatten)))
            obtain ⟨used, rest', next', hsplit, -, hloop, hend⟩ :=
              ih hnd' (Nat.le_of_succ_le_succ hfuel) (scanned + ks.length)
            refine ⟨ks :: used, rest', next', by rw [hsplit]; rfl, by simp, ?_, hend⟩
            rw [hloop, List.flatten_cons, passing_append, List.append_assoc]

/-! ## 5. The rows of a page -/

theorem byKey_key {recs : List Record} {k : Str} {r : Record} (h : byKey recs k = some r) :
    r.key = k := by
  simpa using List.find?_some h

theorem exists_byKey {recs : List Record} {k : Str} (h : ∃ r ∈ recs, r.key = k) :
    ∃ r, byKey recs k = some r := by
  obtain ⟨r, hr, hk⟩ := h
  refine Option.isSome_iff_exists.mp (List.find?_isSome.mpr ⟨r, List.mem_reverse.mpr hr, ?_⟩)
  simpa using hk

theorem itemsOf_perm (matched : List Str) (recs : List Record) :
    (itemsOf matched recs).Perm
      (matched.filterMap fun k => (byKey recs k).map (newItem (classify k))) :=
  List.mergeSort_perm _ _

/-- Every row is that of its key, classified. -/
theorem mem_itemsOf {matched : List Str} {recs : List Record} {item : Item}
    (h : item ∈ itemsOf matched recs) :
    item.key ∈ matched ∧ item.appID = (classify item.key).appID ∧
      item.logicalKey = (classify item.key).logicalKey ∧
      item.kind = (classify item.key).kind := by
  obtain ⟨k, hk, hrow⟩ := List.mem_filterMap.mp ((itemsOf_perm matched recs).mem_iff.mp h)
  obtain ⟨r, hr, rfl⟩ := Option.map_eq_some_iff.mp hrow
  have hkey : (newItem (classify k) r).key = k := byKey_key hr
  rw [hkey]
  exact ⟨hk, rfl, rfl, rfl⟩

/-- **A page has a row for each key that was kept**, if each has a record. -/
theorem keys_itemsOf {matched : List Str} {recs : List Record}
    (h : ∀ k ∈ matched, ∃ r ∈ recs, r.key = k) :
    ((itemsOf matched recs).map Item.key).Perm matched := by
  refine ((itemsOf_perm matched recs).map Item.key).trans ?_
  have hkeys : (matched.filterMap fun k => (byKey recs k).map (newItem (classify k))).map
      Item.key = matched := by
    induction matched with
    | nil => rfl
    | cons k matched ih =>
        obtain ⟨hk, hrest⟩ := List.forall_mem_cons.mp h
        obtain ⟨r, hr⟩ := exists_byKey hk
        have hkey : (newItem (classify k) r).key = k := byKey_key hr
        rw [List.filterMap_cons_some (by rw [hr]; rfl), List.map_cons, hkey, ih hrest]
  rw [hkeys]

/-- A page is sorted by key. -/
theorem itemsOf_sorted (matched : List Str) (recs : List Record) :
    (itemsOf matched recs).Pairwise fun a b => a.key ≤ b.key := by
  have : IsTrans Item fun a b => a.key ≤ b.key := ⟨fun _ _ _ hab hbc => le_trans hab hbc⟩
  have : Std.Total fun a b : Item => a.key ≤ b.key := ⟨fun a b => le_total a.key b.key⟩
  exact List.pairwise_mergeSort' (fun a b : Item => a.key ≤ b.key) _

end DevDashboard.State
