/-
  File:      DevDashboard/Workflow/Composite.lean
  Subject:   LISTING OVER THE STORE AND THE SIDECARS (`pkg/workflow/composite.go`: `List`;
             `pkg/workflow/sidecar.go`: `List`, `listApp`).

  An all-apps listing merges the rows of the sidecars into the first page of the store's walk.
  Later pages are the store's alone.

  * `compositePages_eq` -- the composite walk is the store's walk with its first page merged;
  * `walk_ends` -- the store's walk ends, whatever keys it goes over;
  * `composite_once_iff` -- when no instance is shown twice, and none that a sidecar holds is shown
    as the store has it.
-/
import DevDashboard.Workflow.Rows

namespace DevDashboard.Workflow

open Lib StateStore
open Lib.Paging (Pages Advances walkPages)

/-! ## 1. The sidecars -/

/-- `maxSidecarInstances`. -/
def maxSidecarInstances : Nat := 1000

/-- `dtwf.WorkflowMetadata`, as far as `summaryFromMetadata` reads it. -/
structure WorkflowMetadata where
  name : Str
  runtimeStatus : OrchestrationStatus
  parentInstanceID : Str := []
  createdAt : Option Time := none
  lastUpdatedAt : Option Time := none

/-- What the daprd behind an endpoint answers: the pages of `ListInstanceIDs` (`none`: an error, or
    the timeout), which name an instance once, and `FetchWorkflowMetadata`. -/
structure Daprd where
  firstIDs : Option (List Str)
  moreIDs : List (Option (List Str))
  metadata : Str → Option WorkflowMetadata
  nodup : (firstIDs.getD [] ++ (moreIDs.filterMap id).flatten).Nodup

/-- `SidecarEndpoint`, with what its address leads to. -/
structure SidecarEndpoint where
  appID : Str
  daprd : Daprd

/-- `SidecarService`: an app has one endpoint. -/
structure SidecarService where
  eps : List SidecarEndpoint
  nodup : (eps.map SidecarEndpoint.appID).Nodup

/-- `summaryFromMetadata`. -/
def summaryFromMetadata (appID instanceID : Str) (md : WorkflowMetadata) : ExecutionSummary where
  appID := appID
  instanceID := instanceID
  name := md.name
  status := normalizeStatus md.runtimeStatus
  parentInstanceID := md.parentInstanceID
  createdAt := md.createdAt
  lastUpdatedAt := md.lastUpdatedAt

/-- The loop of `listApp` that follows the continuation tokens. -/
def moreInstanceIDs : List Str → List (Option (List Str)) → Option (List Str)
  | ids, [] => some ids
  | ids, page :: pages =>
      if ids.length < maxSidecarInstances then
        match page with
        | none => none
        | some more => moreInstanceIDs (ids ++ more) pages
      else some ids

/-- `listApp`: an instance whose metadata cannot be fetched is left out. -/
def listApp (ep : SidecarEndpoint) : Option (List ExecutionSummary) :=
  match ep.daprd.firstIDs with
  | none => none
  | some first =>
      match moreInstanceIDs first ep.daprd.moreIDs with
      | none => none
      | some ids =>
          some ((ids.take maxSidecarInstances).filterMap fun id =>
            (ep.daprd.metadata id).map (summaryFromMetadata ep.appID id))

namespace SidecarService

/-- `Owns`. -/
def owns (sc : SidecarService) (appID : Str) : Bool := sc.eps.any fun ep => decide (ep.appID = appID)

/-- `HasEndpoints`. -/
def hasEndpoints (sc : SidecarService) : Bool := !sc.eps.isEmpty

/-- `List`: a failing app is skipped, so there is no error. -/
def list (toLower : Str → Str) (sc : SidecarService) (q : ListQuery) : Except LoadError ListResult :=
  let items := sc.eps.flatMap fun ep =>
    if q.appID ≠ [] ∧ ep.appID ≠ q.appID then []
    else ((listApp ep).getD []).filter (matchesQuery toLower · q)
  .ok ⟨sortByCreated items, []⟩

/-- The instances the sidecars hold, whatever a query asks for. -/
def held (sc : SidecarService) : List ExecutionSummary := sc.eps.flatMap fun ep => (listApp ep).getD []

end SidecarService

/-! ## 2. The composite listing -/

/-- `storeMissing`. -/
def storeMissing : LoadError → Bool
  | .noStore | .storeUnreachable _ _ => true
  | _ => false

/-- What a listing records a row by. -/
def rowKey (row : ExecutionSummary) : Str := row.appID ++ ['/'] ++ row.instanceID

/-- The merge of page one: the sidecars' rows, and the store's rows they do not have. -/
def mergeItems (scItems baseItems : List ExecutionSummary) : List ExecutionSummary :=
  sortByCreated (scItems ++ baseItems.filter fun it => decide (rowKey it ∉ scItems.map rowKey))

/-- `composite.List`. -/
def compositeList (toLower : Str → Str) (sc : SidecarService)
    (base : ListQuery → Shared → Option (Except LoadError (ListResult × Shared)))
    (q : ListQuery) (x : Shared) : Option (Except LoadError (ListResult × Shared)) :=
  if q.appID ≠ [] then
    if sc.owns q.appID then some ((sc.list toLower q).map fun r => (r, x)) else base q x
  else
    match base q x with
    | none => none
    | some (.error baseErr) =>
        if !(storeMissing baseErr && sc.hasEndpoints) then some (.error baseErr)
        else if q.pageToken ≠ [] then some (.ok (⟨[], []⟩, x))
        else
          match sc.list toLower q with
          | .error _ => some (.error baseErr)
          | .ok scRes => some (.ok (scRes, x))
    | some (.ok (baseRes, x')) =>
        -- a cursor page: the sidecars' rows were all on page one
        if q.pageToken ≠ [] then some (.ok (baseRes, x'))
        else
          match sc.list toLower q with
          | .error _ => some (.ok (baseRes, x'))
          | .ok scRes => some (.ok (⟨mergeItems scRes.items baseRes.items, baseRes.nextToken⟩, x'))

/-- A listing as a client calls it that follows the tokens. -/
def pageCall (list : ListQuery → Shared → Option (Except LoadError (ListResult × Shared)))
    (q : ListQuery) (token : Str) (x : Shared) :
    Option (Except LoadError (List ExecutionSummary × Str × Shared)) :=
  match list { q with pageToken := token } x with
  | some (.ok (r, x')) => some (.ok (r.items, r.nextToken, x'))
  | some (.error e) => some (.error e)
  | none => none

/-- The pages a client gets that follows `NextToken` from `""`. -/
def pagesOf (list : ListQuery → Shared → Option (Except LoadError (ListResult × Shared)))
    (fuel : Nat) (q : ListQuery) (x : Shared) :
    Option (Except LoadError (List (List ExecutionSummary))) :=
  walkPages [] (pageCall list q) fuel [] x

/-! ## 3. The walk -/

section Walk

variable {toLower : Str → Str} {sc : SidecarService} {q : ListQuery}
  {base : ListQuery → Shared → Option (Except LoadError (ListResult × Shared))}

theorem pageCall_ok {list : ListQuery → Shared → Option (Except LoadError (ListResult × Shared))}
    {tok : Str} {x : Shared} {answer : List ExecutionSummary × Str × Shared} :
    pageCall list q tok x = some (.ok answer) ↔
      ∃ r, list { q with pageToken := tok } x = some (.ok (r, answer.2.2)) ∧
        r.items = answer.1 ∧ r.nextToken = answer.2.1 := by
  unfold pageCall
  constructor
  · intro h
    split at h
    · rename_i r x' hl
      obtain rfl := Except.ok.inj (Option.some.inj h)
      exact ⟨r, hl, rfl, rfl⟩
    · cases h
    · cases h
  · intro h
    obtain ⟨r, hl, hi, hn⟩ := h
    rw [hl]
    simp only [hi, hn]

/-- The sidecars' rows of an all-apps query. -/
theorem sidecar_list (hq : q.appID = []) :
    sc.list toLower q = .ok ⟨sortByCreated (sc.held.filter (matchesQuery toLower · q)), []⟩ := by
  simp only [SidecarService.list, SidecarService.held, hq, ne_eq, not_true_eq_false, false_and,
    if_false, List.filter_flatMap]

/-- The sidecars' rows as page one shows them. -/
def sidecarRows (toLower : Str → Str) (sc : SidecarService) (q : ListQuery) :
    List ExecutionSummary := sortByCreated (sc.held.filter (matchesQuery toLower · q))

theorem compositeList_first (hq : q.appID = []) (ht : q.pageToken = []) {x x' : Shared}
    {r : ListResult} (h : base q x = some (.ok (r, x'))) :
    compositeList toLower sc base q x =
      some (.ok (⟨mergeItems (sidecarRows toLower sc q) r.items, r.nextToken⟩, x')) := by
  unfold compositeList
  rw [if_neg (not_not.mpr hq), h]
  simp only
  rw [if_neg (not_not.mpr ht), sidecar_list hq]
  rfl

theorem compositeList_cursor (hq : q.appID = []) (ht : q.pageToken ≠ []) {x x' : Shared}
    {r : ListResult} (h : base q x = some (.ok (r, x'))) :
    compositeList toLower sc base q x = some (.ok (r, x')) := by
  unfold compositeList
  rw [if_neg (not_not.mpr hq), h]
  simp only
  rw [if_pos ht]

/-- **The composite walk is the base walk with its first page merged.** -/
theorem compositePages_eq (hq : q.appID = []) {fuel : Nat} {x : Shared}
    {pages : List (List ExecutionSummary)} (h : pagesOf base fuel q x = some (.ok pages)) :
    pagesOf (compositeList toLower sc base) fuel q x =
      some (.ok (pages.modifyHead (mergeItems (sidecarRows toLower sc q)))) := by
  refine Paging.walkPages_modifyHead ?_ ?_ h
  · intro st items next st' hc
    obtain ⟨r, hl, rfl, rfl⟩ := pageCall_ok.mp hc
    exact pageCall_ok.mpr ⟨_, @compositeList_first _ _ { q with pageToken := [] } _ hq rfl _ _ _ hl,
      rfl, rfl⟩
  · intro tok st answer htok hc
    obtain ⟨r, hl, hi, hn⟩ := pageCall_ok.mp hc
    exact pageCall_ok.mpr ⟨r, @compositeList_cursor _ _ { q with pageToken := tok } _ hq htok _ _ _ hl,
      hi, hn⟩

/-! ## 4. What the sidecars hold -/

/-- The instance of a row. -/
def rowRef (row : ExecutionSummary) : InstanceRef := ⟨row.appID, row.instanceID⟩

theorem moreInstanceIDs_sublist {ids ids' : List Str} {pages : List (Option (List Str))}
    (h : moreInstanceIDs ids pages = some ids') :
    List.Sublist ids' (ids ++ (pages.filterMap id).flatten) := by
  induction pages generalizing ids with
  | nil =>
      obtain rfl := Option.some.inj h
      simp
  | cons page pages ih =>
      unfold moreInstanceIDs at h
      split at h
      · cases page with
        | none => cases h
        | some more => simpa using ih h
      · obtain rfl := Option.some.inj h
        exact List.sublist_append_left _ _

/-- One sidecar's rows: its app's, each instance once. -/
theorem listApp_rows {ep : SidecarEndpoint} {rows : List ExecutionSummary}
    (h : listApp ep = some rows) :
    (∀ row ∈ rows, row.appID = ep.appID) ∧ (rows.map rowRef).Nodup := by
  unfold listApp at h
  have hnd := ep.daprd.nodup
  cases hfirst : ep.daprd.firstIDs with
  | none => simp [hfirst] at h
  | some first =>
      simp only [hfirst] at h
      cases hmore : moreInstanceIDs first ep.daprd.moreIDs with
      | none => simp [hmore] at h
      | some ids =>
          simp only [hmore, Option.some.injEq] at h
          subst h
          have hids : (ids.take maxSidecarInstances).Nodup := by
            rw [hfirst] at hnd
            exact hnd.sublist ((List.take_sublist _ _).trans (moreInstanceIDs_sublist hmore))
          refine ⟨?_, ?_⟩
          · intro row hrow
            obtain ⟨id, -, hid⟩ := List.mem_filterMap.mp hrow
            obtain ⟨md, -, rfl⟩ := Option.map_eq_some_iff.mp hid
            rfl
          · have hmap : List.Sublist (((ids.take maxSidecarInstances).filterMap fun id =>
                (ep.daprd.metadata id).map (summaryFromMetadata ep.appID id)).map
                  fun row => row.instanceID) (ids.take maxSidecarInstances) := by
              generalize ids.take maxSidecarInstances = l
              induction l with
              | nil => exact List.Sublist.slnil
              | cons id l ih =>
                  cases hm : ep.daprd.metadata id with
                  | none => simpa [hm] using ih.cons id
                  | some md => simpa [hm, summaryFromMetadata] using ih
            refine List.Nodup.of_map InstanceRef.id ?_
            rw [List.map_map]
            exact hids.sublist hmap

/-- The sidecars hold an instance once. -/
theorem nodup_held (sc : SidecarService) : (sc.held.map rowRef).Nodup := by
  obtain ⟨eps, hnd⟩ := sc
  unfold SidecarService.held
  simp only
  induction eps with
  | nil => exact List.nodup_nil
  | cons ep eps ih =>
      obtain ⟨hnot, hnd⟩ := List.nodup_cons.mp hnd
      have hrows : ∀ {ep : SidecarEndpoint} {row}, row ∈ (listApp ep).getD [] →
          row.appID = ep.appID := by
        intro ep row hrow
        cases hl : listApp ep with
        | none => simp [hl] at hrow
        | some rows => exact (listApp_rows hl).1 row (by simpa [hl] using hrow)
      rw [List.flatMap_cons, List.map_append, List.nodup_append]
      refine ⟨?_, ih hnd, ?_⟩
      · cases hl : listApp ep with
        | none => exact List.nodup_nil
        | some rows => exact (listApp_rows hl).2
      · -- another endpoint's rows are another app's
        intro r hr r' hr' he
        obtain ⟨row, hrow, rfl⟩ := List.mem_map.mp hr
        obtain ⟨row', hrow', rfl⟩ := List.mem_map.mp hr'
        obtain ⟨ep', hep', hrow'⟩ := List.mem_flatMap.mp hrow'
        have happ : row.appID = row'.appID := congrArg InstanceRef.appID he
        rw [hrows hrow, hrows hrow'] at happ
        exact hnot (happ ▸ List.mem_map_of_mem hep')

/-! ## 5. No instance twice -/

/-- The store's rows that a composite walk shows: those of page one that the sidecars do not list,
    and all of the later pages. -/
def keptRows (scItems : List ExecutionSummary) :
    List (List ExecutionSummary) → List ExecutionSummary
  | [] => []
  | page :: pages =>
      page.filter (fun it => decide (rowKey it ∉ scItems.map rowKey)) ++ pages.flatten

theorem keptRows_sublist (scItems : List ExecutionSummary) (pages : List (List ExecutionSummary)) :
    List.Sublist (keptRows scItems pages) pages.flatten := by
  cases pages with
  | nil => exact List.Sublist.slnil
  | cons page pages => exact List.Sublist.append List.filter_sublist (List.Sublist.refl _)

/-- **Each instance once, the sidecar's row where a sidecar holds it.** -/
structure ShownOnce (sc : SidecarService) (rows : List ExecutionSummary) : Prop where
  once : (rows.map rowRef).Nodup
  sidecar : ∀ row ∈ rows, ∀ h ∈ sc.held, rowRef h = rowRef row → row = h

/-- **What it takes**: the store's rows that are shown are of different instances, and a sidecar
    holds none of them. -/
structure KeptApart (sc : SidecarService) (kept : List ExecutionSummary) : Prop where
  once : (kept.map rowRef).Nodup
  notHeld : ∀ row ∈ kept, ∀ h ∈ sc.held, rowRef h ≠ rowRef row

theorem modifyHead_perm {scItems : List ExecutionSummary} {pages : List (List ExecutionSummary)}
    (hne : pages ≠ []) :
    (pages.modifyHead (mergeItems scItems)).flatten.Perm (scItems ++ keptRows scItems pages) := by
  cases pages with
  | nil => exact absurd rfl hne
  | cons page pages =>
      rw [List.modifyHead_cons, List.flatten_cons, keptRows, ← List.append_assoc]
      exact (sortByCreated_perm _).append_right _

/-- The sidecars' rows are of what they hold. -/
theorem mem_sidecarRows {row : ExecutionSummary} :
    row ∈ sidecarRows toLower sc q ↔ row ∈ sc.held ∧ matchesQuery toLower row q = true := by
  rw [sidecarRows, (sortByCreated_perm _).mem_iff, List.mem_filter]

theorem shownOnce_iff {kept : List ExecutionSummary}
    (hmatch : ∀ row ∈ kept, matchesQuery toLower row q = true) {rows : List ExecutionSummary}
    (hrows : rows.Perm (sidecarRows toLower sc q ++ kept)) :
    ShownOnce sc rows ↔ KeptApart sc kept := by
  have hheld : ∀ h ∈ sc.held, ∀ h' ∈ sc.held, rowRef h = rowRef h' → h = h' :=
    fun h hh h' hh' he => List.inj_on_of_nodup_map (nodup_held sc) hh hh' he
  have hsc : ((sidecarRows toLower sc q).map rowRef).Nodup :=
    ((sortByCreated_perm _).map rowRef).nodup_iff.mpr
      ((nodup_held sc).sublist (List.filter_sublist.map rowRef))
  have hnd : (rows.map rowRef).Nodup ↔
      (kept.map rowRef).Nodup ∧ ∀ r ∈ (sidecarRows toLower sc q).map rowRef,
        ∀ r' ∈ kept.map rowRef, r ≠ r' := by
    rw [(hrows.map rowRef).nodup_iff, List.map_append, List.nodup_append]
    exact ⟨fun h => ⟨h.2.1, h.2.2⟩, fun h => ⟨hsc, h.1, h.2⟩⟩
  constructor
  · intro hs
    obtain ⟨honce, hdisj⟩ := hnd.mp hs.once
    refine ⟨honce, fun row hrow h hh he => ?_⟩
    -- the row shown would be the sidecar's, which the query accepts, so it is listed as well
    have heq := hs.sidecar row (hrows.mem_iff.mpr (List.mem_append_right _ hrow)) h hh he
    have hlisted := mem_sidecarRows.mpr ⟨hh, heq ▸ hmatch row hrow⟩
    exact hdisj _ (List.mem_map_of_mem hlisted) _ (List.mem_map_of_mem hrow) he
  · intro hk
    refine ⟨hnd.mpr ⟨hk.once, ?_⟩, fun row hrow h hh he => ?_⟩
    · intro r hr r' hr' he
      obtain ⟨h, hh, rfl⟩ := List.mem_map.mp hr
      obtain ⟨row, hrow, rfl⟩ := List.mem_map.mp hr'
      exact hk.notHeld row hrow h (mem_sidecarRows.mp hh).1 he
    · rcases List.mem_append.mp (hrows.mem_iff.mp hrow) with hrow | hrow
      · exact hheld row (mem_sidecarRows.mp hrow).1 h hh he.symm
      · exact absurd he (hk.notHeld row hrow h hh)

theorem pages_ne_nil {fuel : Nat} {x : Shared} {pages : List (List ExecutionSummary)}
    (h : pagesOf base fuel q x = some (.ok pages)) : pages ≠ [] := by
  cases fuel with
  | zero => cases h
  | succ fuel =>
      obtain ⟨items, next, st', -, hrest⟩ := Paging.walkPages_ok h
      rcases hrest with ⟨-, rfl⟩ | ⟨-, rest, rfl, -⟩
      · simp
      · simp

theorem shownOnce_of_pages {fuel : Nat} {x : Shared} {pages : List (List ExecutionSummary)}
    (h : pagesOf base fuel q x = some (.ok pages))
    (hmatch : ∀ page ∈ pages, ∀ row ∈ page, matchesQuery toLower row q = true) :
    ShownOnce sc (pages.modifyHead (mergeItems (sidecarRows toLower sc q))).flatten ↔
      KeptApart sc (keptRows (sidecarRows toLower sc q) pages) := by
  refine shownOnce_iff ?_ (modifyHead_perm (pages_ne_nil h))
  intro row hrow
  cases pages with
  | nil => cases hrow
  | cons page pages =>
      rcases List.mem_append.mp hrow with hrow | hrow
      · exact hmatch page List.mem_cons_self row (List.mem_filter.mp hrow).1
      · obtain ⟨page', hpage', hrow⟩ := List.mem_flatten.mp hrow
        exact hmatch page' (List.mem_cons_of_mem page hpage') row hrow

end Walk

/-! ## 6. Over a store -/

section Store

variable {cd : Codec} {toLower : Str → Str} {others : Others} {s : StoreReads} {c : Content}
  {q : ListQuery}

theorem exists_loadSummaries (hs : Serves s c) (ns : Str) (refs : List InstanceRef) (x : Shared) :
    ∃ results x', loadSummaries cd others s ns refs x = .ok (results, x') := by
  unfold loadSummaries
  by_cases hne : refs = []
  · rw [if_pos hne]
    exact ⟨_, _, rfl⟩
  · rw [if_neg hne, hs.bulkGet]
    exact ⟨_, _, rfl⟩

/-- The loop of a call goes at least one page on, whatever the keys are. -/
theorem listLoop_advances (hs : Serves s c) {ns tok : Str} {pages : List (List Str)}
    (hpages : Pages [] (scan s ns q) tok pages) {fuel : Nat} (hfuel : pages.length ≤ fuel)
    {scanned : Int} {seen : List Str} {items : List ExecutionSummary} {x : Shared} :
    ∃ used rest r x', pages = used ++ rest ∧ used ≠ [] ∧
      listLoop cd others s ns toLower q fuel tok scanned seen items x = some (.ok (r, x')) ∧
      ((r.nextToken = [] ∧ rest = []) ∨
        (r.nextToken ≠ [] ∧ Pages [] (scan s ns q) r.nextToken rest)) := by
  induction hpages generalizing fuel scanned seen items x with
  | @last tok ks hread =>
      obtain ⟨fuel, rfl⟩ := Nat.exists_eq_add_one_of_ne_zero
        (show fuel ≠ 0 from fun h => by simp [h] at hfuel)
      obtain ⟨results, x', hload⟩ :=
        @exists_loadSummaries cd others _ _ hs ns (refsFromKeys ks seen).1 x
      refine ⟨[ks], [], ⟨items ++ accepted toLower q results, []⟩, x', rfl, by simp, ?_,
        .inl ⟨rfl, rfl⟩⟩
      rw [listLoop, show metaKeys s ns q.appID tok _ = _ from hread]
      simp only [hload]
      rw [if_pos (by simp [ListQuery.stops])]
  | @more tok next ks rest hread hne hrest ih =>
      obtain ⟨fuel, rfl⟩ := Nat.exists_eq_add_one_of_ne_zero
        (show fuel ≠ 0 from fun h => by simp [h] at hfuel)
      obtain ⟨results, x', hload⟩ :=
        @exists_loadSummaries cd others _ _ hs ns (refsFromKeys ks seen).1 x
      rw [listLoop, show metaKeys s ns q.appID tok _ = _ from hread]
      simp only [hload]
      split
      · exact ⟨[ks], rest, _, x', rfl, by simp, rfl, .inr ⟨hne, hrest⟩⟩
      · obtain ⟨used, rest', r, x'', rfl, -, hl, hn⟩ := ih (by simpa using hfuel)
        exact ⟨ks :: used, rest', r, x'', rfl, by simp, hl, hn⟩

/-- **The store's walk ends**, and its rows are those of the query. -/
theorem walk_ends {svc : Service} (hstore : svc.store = some s) (hs : Serves s c)
    (hcur : Cursor s c) (q : ListQuery) (x : Shared) :
    ∃ N, ∀ fuel ≥ N, ∃ pages,
      pagesOf (svc.list cd toLower others fuel) fuel q x = some (.ok pages) ∧
      ∀ page ∈ pages, ∀ row ∈ page, matchesQuery toLower row q = true := by
  have hpos : 0 < q.effectivePageSize.toNat := by
    have := effectivePageSize_pos q
    omega
  obtain ⟨pages, hpages, -, -⟩ :=
    hcur (metaPattern (svc.effectiveNS q.appID) q.appID) _ hpos
  refine ⟨pages.length, fun fuel hfuel => ?_⟩
  refine Paging.walkPages_ends (m := fuel) ?_ fuel [] pages x hpages hfuel hfuel
  intro tok pages x hpages hm
  obtain ⟨used, rest, r, x', rfl, hne, hloop, hn⟩ :=
    @listLoop_advances cd toLower others _ _ { q with pageToken := tok } hs _ _ _ hpages _ hm 0 [] []
      x
  have hlist : svc.list cd toLower others fuel { q with pageToken := tok } x =
      some (.ok (finishPage { q with pageToken := tok } r, x')) := by
    unfold Service.list
    simp only [hstore]
    rw [hloop]
  have hnext : (finishPage { q with pageToken := tok } r).nextToken = r.nextToken := by
    unfold finishPage
    simp only
    split <;> rfl
  refine ⟨used, rest, _, r.nextToken, x', rfl, hne, pageCall_ok.mpr ⟨_, hlist, rfl, hnext⟩,
    matches_of_list (q := { q with pageToken := tok }) hstore hlist, hn⟩

/-- **The composite walk**: whatever the store and the sidecars hold, for every all-apps query it
    ends, and it shows each instance once, the sidecar's row where a sidecar holds it, exactly if
    the store's rows it shows are apart from each other and from what the sidecars hold. -/
theorem composite_once_iff {svc : Service} (hstore : svc.store = some s) (hs : Serves s c)
    (hcur : Cursor s c) (sc : SidecarService) (hq : q.appID = []) (x : Shared) :
    ∃ N, ∀ fuel ≥ N, ∃ pages shown,
      pagesOf (svc.list cd toLower others fuel) fuel q x = some (.ok pages) ∧
      pagesOf (compositeList toLower sc (svc.list cd toLower others fuel)) fuel q x =
        some (.ok shown) ∧
      (ShownOnce sc shown.flatten ↔
        KeptApart sc (keptRows (sidecarRows toLower sc q) pages)) := by
  obtain ⟨N, hN⟩ := @walk_ends cd toLower others _ _ _ hstore hs hcur q x
  refine ⟨N, fun fuel hfuel => ?_⟩
  obtain ⟨pages, hpages, hmatch⟩ := hN fuel hfuel
  exact ⟨pages, _, hpages, compositePages_eq hq hpages, shownOnce_of_pages hpages hmatch⟩

end Store

/-! ## 7. Two instances, one key a page -/

/-- A store with two instances of the app `shop`. -/
def twoOrders : Content :=
  ⟨[(order1.metaKey "d".toList, lengthOne), (order42.metaKey "d".toList, lengthOne)], by decide⟩

/-- The service over it. -/
def twoOrdersService : Service := { store := some (pageStore twoOrders), ns := "d".toList }

/-- The row of an instance of that store. -/
def orderRow (r : InstanceRef) : ExecutionSummary :=
  { appID := r.appID, instanceID := r.id, status := .pending }

theorem summaryOf_twoOrders {r : InstanceRef} (h : r = order1 ∨ r = order42) :
    summaryOf tinyCodec (pageStore twoOrders) "d".toList twoOrders r = some (orderRow r) := by
  have hl : historyLength tinyCodec (twoOrders.get (r.metaKey "d".toList)) = some 1 := by
    rcases h with rfl | rfl <;> decide
  have hload := @loadWithMeta_eq tinyCodec _ _ (serves_pageStore twoOrders) "d".toList r.appID r.id _ _ hl
  have hkeys : historyKeys (instancePrefix "d".toList r.appID r.id)
      (twoOrders.bulkGet (declaredKeys (instancePrefix "d".toList r.appID r.id) 1)) = [] := by
    rcases h with rfl | rfl <;> decide
  have hnone : historyOf tinyCodec twoOrders [] = [] := by simp [historyOf, sortStrings]
  simp only [summaryOf, hload, decodeInstance_bulkGet, hkeys, hnone]
  rfl

/-- One page of the walk over it. -/
theorem list_twoOrders {tok next : Str} {r : InstanceRef} (h : r = order1 ∨ r = order42)
    (hread : (pageStore twoOrders).keys (metaPattern "d".toList []) tok 1 =
      .ok ([r.metaKey "d".toList], next)) (fuel : Nat) {x : Shared}
    (hx : Coherent tinyCodec (pageStore twoOrders) "d".toList twoOrders x.cache) :
    ∃ x', pageCall (twoOrdersService.list tinyCodec id (fun _ cache => cache) (fuel + 1)) oneAPage
        tok x = some (.ok ([orderRow r], next, x')) ∧
      Coherent tinyCodec (pageStore twoOrders) "d".toList twoOrders x'.cache := by
  have hp : parseRef (r.metaKey "d".toList) = some r := by
    rcases h with rfl | rfl <;> decide
  have hnul : ∀ r' ∈ [r], nul ∉ r'.appID := by
    rcases h with rfl | rfl <;> decide
  obtain ⟨x', hload, hx'⟩ := @loadSummaries_eq tinyCodec (fun _ cache => cache) _ "d".toList twoOrders
    (fun _ _ h => h) (serves_pageStore twoOrders) [r] hnul x hx
  have hrefs : refsFromKeys [r.metaKey "d".toList] [] = ([r], [r.dedupKey]) := by
    rw [refsFromKeys, hp]
    rfl
  have hrows : accepted id { oneAPage with pageToken := tok }
      ([r].map (summaryOf tinyCodec (pageStore twoOrders) "d".toList twoOrders)) = [orderRow r] := by
    rw [List.map_singleton, summaryOf_twoOrders h]
    simp [accepted, matchesQuery, oneAPage]
  have hlist := @list_oneRound tinyCodec id _ twoOrdersService _ _ rfl
    { oneAPage with pageToken := tok } rfl _ _ _ _ _ _ _ hread hrefs hload
    (fun _ => by simp [ListQuery.stops, ListQuery.filtered, oneAPage]) fuel
  rw [hrows] at hlist
  have hone : sortByCreated [orderRow r] = [orderRow r] := List.mergeSort_singleton _
  have hfinish : finishPage { oneAPage with pageToken := tok } ⟨[orderRow r], next⟩ =
      ⟨[orderRow r], next⟩ := by
    unfold finishPage
    simp only [hone]
    rw [if_neg (by simp [ListQuery.effectivePageSize, oneAPage])]
  rw [hfinish] at hlist
  exact ⟨x', pageCall_ok.mpr ⟨_, hlist, rfl, rfl⟩, hx'⟩

/-- The walk over it: two pages. -/
theorem pages_twoOrders (fuel : Nat) :
    pagesOf (twoOrdersService.list tinyCodec id (fun _ cache => cache) (fuel + 2)) (fuel + 2)
        oneAPage ⟨newSummaryCache maxCachedSummaries, 0⟩ =
      some (.ok [[orderRow order1], [orderRow order42]]) := by
  have hkeys : twoOrders.keysLike (metaPattern "d".toList []) =
      [order1.metaKey "d".toList, order42.metaKey "d".toList] := by decide
  have hread₁ : (pageStore twoOrders).keys (metaPattern "d".toList []) [] 1 =
      .ok ([order1.metaKey "d".toList], ['+']) := by
    simp only [pageStore, hkeys]
    rfl
  have hread₂ : (pageStore twoOrders).keys (metaPattern "d".toList []) ['+'] 1 =
      .ok ([order42.metaKey "d".toList], []) := by
    simp only [pageStore, hkeys]
    rfl
  obtain ⟨x₁, hcall₁, hx₁⟩ := @list_twoOrders [] ['+'] order1 (.inl rfl) hread₁ (fuel + 1)
    ⟨newSummaryCache maxCachedSummaries, 0⟩ (coherent_empty _ _ _ _ _)
  obtain ⟨x₂, hcall₂, -⟩ := @list_twoOrders ['+'] [] order42 (.inr rfl) hread₂ (fuel + 1) x₁ hx₁
  unfold pagesOf
  rw [walkPages, hcall₁]
  simp only
  rw [if_neg (by decide), walkPages, hcall₂]
  simp only [if_true]

/-- A sidecar of one app that holds one running instance. -/
def oneSidecar (r : InstanceRef) : SidecarService where
  eps := [⟨r.appID, ⟨some [r.id], [], fun _ => some { name := [], runtimeStatus := .running },
    by simp⟩⟩]
  nodup := by simp

theorem held_oneSidecar (r : InstanceRef) :
    (oneSidecar r).held = [{ appID := r.appID, instanceID := r.id, status := .running }] := rfl

/-- The instance `7` of the app `pay`. -/
def pay7 : InstanceRef := ⟨"pay".toList, ['7']⟩

theorem composite_once_iff_pay7 :
    ∃ N, ∀ fuel ≥ N, ∃ shown,
      pagesOf (compositeList id (oneSidecar pay7)
          (twoOrdersService.list tinyCodec id (fun _ cache => cache) (fuel + 2))) (fuel + 2) oneAPage
        ⟨newSummaryCache maxCachedSummaries, 0⟩ = some (.ok shown) ∧
      ShownOnce (oneSidecar pay7) shown.flatten := by
  obtain ⟨N, hN⟩ := @composite_once_iff tinyCodec id (fun _ cache => cache) _ twoOrders oneAPage
    twoOrdersService rfl (serves_pageStore twoOrders) (cursor_pageStore twoOrders) (oneSidecar pay7)
    rfl ⟨newSummaryCache maxCachedSummaries, 0⟩
  refine ⟨N, fun fuel hfuel => ?_⟩
  obtain ⟨pages, shown, hpages, hshown, hiff⟩ := hN (fuel + 2) (by omega)
  rw [pages_twoOrders] at hpages
  obtain rfl := Except.ok.inj (Option.some.inj hpages)
  refine ⟨shown, hshown, hiff.mpr ?_⟩
  have hkept : ∀ row ∈ keptRows (sidecarRows id (oneSidecar pay7) oneAPage)
      [[orderRow order1], [orderRow order42]], row = orderRow order1 ∨ row = orderRow order42 := by
    intro row hrow
    rcases List.mem_append.mp hrow with hrow | hrow
    · exact .inl (List.mem_singleton.mp (List.mem_filter.mp hrow).1)
    · exact .inr (by simpa using hrow)
  refine ⟨?_, fun row hrow h hh he => ?_⟩
  · have hsub : List.Sublist (keptRows (sidecarRows id (oneSidecar pay7) oneAPage)
        [[orderRow order1], [orderRow order42]]) [orderRow order1, orderRow order42] :=
      List.Sublist.append List.filter_sublist (List.Sublist.refl _)
    have hnd : ([orderRow order1, orderRow order42].map rowRef).Nodup := by decide
    exact hnd.sublist (hsub.map rowRef)
  · rw [held_oneSidecar, List.mem_singleton] at hh
    subst hh
    rcases hkept row hrow with rfl | rfl
    · exact absurd he (by decide)
    · exact absurd he (by decide)

/-- **An instance shown twice**: the sidecar's row on page one, the store's row on page two. -/
theorem composite_twice :
    ∃ shown, pagesOf (compositeList id (oneSidecar order42)
        (twoOrdersService.list tinyCodec id (fun _ cache => cache) 2)) 2 oneAPage
        ⟨newSummaryCache maxCachedSummaries, 0⟩ = some (.ok shown) ∧
      ¬ (shown.flatten.map rowRef).Nodup := by
  have hbase := pages_twoOrders 0
  refine ⟨_, compositePages_eq rfl hbase, fun hnd => ?_⟩
  rw [((modifyHead_perm (pages_ne_nil hbase)).map rowRef).nodup_iff, List.map_append,
    List.nodup_append] at hnd
  have hsc : order42 ∈ (sidecarRows id (oneSidecar order42) oneAPage).map rowRef := by
    refine List.mem_map.mpr ⟨{ appID := order42.appID, instanceID := order42.id, status := .running },
      mem_sidecarRows.mpr ⟨?_, ?_⟩, rfl⟩
    · rw [held_oneSidecar]
      exact List.mem_singleton_self _
    · decide
  have hstore : order42 ∈ (keptRows (sidecarRows id (oneSidecar order42) oneAPage)
      [[orderRow order1], [orderRow order42]]).map rowRef :=
    List.mem_map.mpr ⟨orderRow order42, List.mem_append_right _ (by simp), rfl⟩
  exact hnd.2.2 _ hsc _ hstore rfl

end DevDashboard.Workflow
