/-
  File:      DevDashboard/Workflow/Routing.lean
  Subject:   WHICH SOURCE A ROW COMES FROM (`pkg/workflow/composite.go`: `List`, `Get`).

  With an app-id, `List` asks one source: the sidecars if they own the app, else the store. `Get`
  chooses in the same way. Over all apps `List` merges both sources, instance by instance.

  * `scoped_owned`, `scoped_unowned` -- the walk with an app-id;
  * `sidecar_scoped_perm` -- the sidecars list an app as they list it among all apps;
  * `routesAgree_owned`, `routesAgree_unowned` -- what the merge must keep of one walk;
  * `routes_agree_iff` -- when the all-apps walk shows of an app what the walk with its app-id
    shows, over a store and over a base that fails;
  * `RouteKeys.scansAgree`, `routeKeys_of_plain` -- the keys it takes, and the app filter.
-/
import DevDashboard.Workflow.WalkRows

namespace DevDashboard.Workflow

open Lib StateStore
open Lib.Paging (walkPages)

/-! ## 1. The walk with an app-id -/

section Scoped

variable {toLower : Str → Str} {sc : SidecarService} {q : ListQuery} {a : Str}
  {base base' : ListQuery → Shared → Option (Except LoadError (ListResult × Shared))}

/-- The rows of an app. -/
def rowsOfApp (a : Str) (rows : List ExecutionSummary) : List ExecutionSummary :=
  rows.filter fun row => decide (row.appID = a)

theorem mem_rowsOfApp {rows : List ExecutionSummary} {row : ExecutionSummary} :
    row ∈ rowsOfApp a rows ↔ row ∈ rows ∧ row.appID = a := by
  rw [rowsOfApp, List.mem_filter, decide_eq_true_eq]

/-- The rows that the sidecars list for an app. -/
def scopedRows (toLower : Str → Str) (sc : SidecarService) (q : ListQuery) (a : Str) :
    List ExecutionSummary :=
  sortByCreated (sc.eps.flatMap fun ep =>
    if ep.appID ≠ a then [] else ((listApp ep).getD []).filter (matchesQuery toLower · q))

theorem appID_of_listApp {ep : SidecarEndpoint} {row : ExecutionSummary}
    (h : row ∈ (listApp ep).getD []) : row.appID = ep.appID := by
  cases hl : listApp ep with
  | none => simp [hl] at h
  | some rows => exact (listApp_rows hl).1 row (by simpa [hl] using h)

/-- **The sidecars list an app as they list it among all apps.** -/
theorem sidecar_scoped_perm :
    (rowsOfApp a (sidecarRows toLower sc q)).Perm (scopedRows toLower sc q a) := by
  have hflat : rowsOfApp a (sc.held.filter (matchesQuery toLower · q)) =
      sc.eps.flatMap fun ep =>
        if ep.appID ≠ a then [] else ((listApp ep).getD []).filter (matchesQuery toLower · q) := by
    rw [rowsOfApp, SidecarService.held, List.filter_flatMap, List.filter_flatMap]
    congr 1
    funext ep
    have happ : ∀ row ∈ ((listApp ep).getD []).filter (matchesQuery toLower · q),
        row.appID = ep.appID := fun row hrow => appID_of_listApp (List.mem_filter.mp hrow).1
    by_cases he : ep.appID = a
    · rw [if_neg (not_not.mpr he)]
      exact List.filter_eq_self.mpr fun row hrow => by simp [happ row hrow, he]
    · rw [if_pos he]
      exact List.filter_eq_nil_iff.mpr fun row hrow => by simp [happ row hrow, he]
  have hperm : (rowsOfApp a (sidecarRows toLower sc q)).Perm
      (rowsOfApp a (sc.held.filter (matchesQuery toLower · q))) := (sortByCreated_perm _).filter _
  rw [hflat] at hperm
  exact hperm.trans (sortByCreated_perm _).symm

/-- Only an app with an endpoint has rows from the sidecars. -/
theorem owns_of_mem_sidecarRows {row : ExecutionSummary} (h : row ∈ sidecarRows toLower sc q) :
    sc.owns row.appID = true := by
  obtain ⟨ep, hep, hrow⟩ := List.mem_flatMap.mp (mem_sidecarRows.mp h).1
  exact List.any_eq_true.mpr ⟨ep, hep, by simp [appID_of_listApp hrow]⟩

theorem scoped_owned (ha : a ≠ []) (hown : sc.owns a = true) (fuel : Nat) (x : Shared) :
    pagesOf (compositeList toLower sc base) (fuel + 1) { q with appID := a } x =
      some (.ok [scopedRows toLower sc q a]) := by
  have hlist : sc.list toLower { q with appID := a, pageToken := [] } =
      .ok ⟨scopedRows toLower sc q a, []⟩ := by
    unfold SidecarService.list scopedRows
    simp only [ne_eq, ha, not_false_eq_true, true_and]
    rfl
  have hcall : pageCall (compositeList toLower sc base) { q with appID := a } [] x =
      some (.ok (scopedRows toLower sc q a, [], x)) := by
    refine pageCall_ok.mpr ⟨⟨scopedRows toLower sc q a, []⟩, ?_, rfl, rfl⟩
    unfold compositeList
    rw [if_pos ha, if_pos hown, hlist]
    rfl
  rw [pagesOf, walkPages, hcall]
  simp only [if_true]

theorem scoped_unowned (ha : a ≠ []) (hown : sc.owns a = false) (fuel : Nat) (x : Shared) :
    pagesOf (compositeList toLower sc base) fuel { q with appID := a } x =
      pagesOf base fuel { q with appID := a } x := by
  have hcall : pageCall (compositeList toLower sc base) { q with appID := a } =
      pageCall base { q with appID := a } := by
    funext tok y
    have hlist : compositeList toLower sc base { q with appID := a, pageToken := tok } y =
        base { q with appID := a, pageToken := tok } y := by
      unfold compositeList
      rw [if_pos ha, if_neg (by simp [hown])]
    simp only [pageCall, hlist]
  rw [pagesOf, pagesOf, hcall]

/-! ## 2. When the routes agree -/

/-- The rows a client gets from a walk: none if it fails. -/
def walkRows : Option (Except LoadError (List (List ExecutionSummary))) → List ExecutionSummary
  | some (.ok pages) => pages.flatten
  | _ => []

/-- **The routes agree on an app**: the all-apps walk shows of it what the walk with its app-id
    shows, and every such row is one of the source that `Get` asks. -/
structure RoutesAgree (sc : SidecarService) (a : Str)
    (sidecar store all byApp : List ExecutionSummary) : Prop where
  rows : (rowsOfApp a all).Perm byApp
  source : ∀ row ∈ rowsOfApp a all, row ∈ if sc.owns a then sidecar else store

/-- The rows of an app on the merged walk. -/
theorem rowsOfApp_merged {pages : List (List ExecutionSummary)} (hne : pages ≠ []) :
    (rowsOfApp a (pages.modifyHead (mergeItems (sidecarRows toLower sc q))).flatten).Perm
      (rowsOfApp a (sidecarRows toLower sc q) ++
        rowsOfApp a (keptRows (sidecarRows toLower sc q) pages)) := by
  have h := (@modifyHead_perm (sidecarRows toLower sc q) pages hne).filter
    fun row => decide (row.appID = a)
  rwa [List.filter_append] at h

theorem rowsOfApp_eq_nil {rows : List ExecutionSummary} :
    rowsOfApp a rows = [] ↔ ∀ row ∈ rows, row.appID ≠ a := by
  rw [rowsOfApp, List.filter_eq_nil_iff]
  simp

/-- An app that the sidecars do not own has no row from them. -/
theorem rowsOfApp_sidecar_unowned (hown : sc.owns a = false) :
    rowsOfApp a (sidecarRows toLower sc q) = [] := by
  refine rowsOfApp_eq_nil.mpr fun row hrow he => ?_
  rw [← he, owns_of_mem_sidecarRows hrow] at hown
  cases hown

/-- The rows of an app on the walk over all apps. -/
theorem rowsOfApp_all {fuel : Nat} {x : Shared} {pages : List (List ExecutionSummary)}
    (hpages : pagesOf base fuel { q with appID := [] } x = some (.ok pages)) :
    (rowsOfApp a (walkRows (pagesOf (compositeList toLower sc base) fuel
      { q with appID := [] } x))).Perm
        (rowsOfApp a (sidecarRows toLower sc q) ++
          rowsOfApp a (keptRows (sidecarRows toLower sc q) pages)) := by
  rw [@compositePages_eq toLower sc { q with appID := [] } base rfl fuel x pages hpages]
  exact @rowsOfApp_merged toLower sc q a pages (pages_ne_nil hpages)

/-- **Of an app that the sidecars own** the merge must keep no row of the store. -/
theorem routesAgree_owned (ha : a ≠ []) (ho : sc.owns a = true) {fuel : Nat} {x xa : Shared}
    {pages : List (List ExecutionSummary)}
    (hpages : pagesOf base (fuel + 1) { q with appID := [] } x = some (.ok pages)) :
    RoutesAgree sc a (sidecarRows toLower sc q) pages.flatten
        (walkRows (pagesOf (compositeList toLower sc base) (fuel + 1) { q with appID := [] } x))
        (walkRows (pagesOf (compositeList toLower sc base') (fuel + 1) { q with appID := a } xa)) ↔
      ∀ row ∈ keptRows (sidecarRows toLower sc q) pages, row.appID ≠ a := by
  have hall := @rowsOfApp_all toLower sc q a base _ x pages hpages
  have hside := @sidecar_scoped_perm toLower sc q a
  rw [scoped_owned ha ho, show walkRows (some (.ok [scopedRows toLower sc q a])) =
    scopedRows toLower sc q a by simp [walkRows], ← rowsOfApp_eq_nil]
  constructor
  · intro h
    have hlen := (hall.symm.trans (h.rows.trans hside.symm)).length_eq
    rw [List.length_append] at hlen
    exact List.length_eq_zero_iff.mp (by omega)
  · intro h
    rw [h, List.append_nil] at hall
    refine ⟨hall.trans hside, fun row hrow => ?_⟩
    rw [if_pos ho]
    exact (mem_rowsOfApp.mp (hall.mem_iff.mp hrow)).1

/-- **Of another app** it must keep what the walk with the app-id has. -/
theorem routesAgree_unowned (ha : a ≠ []) (ho : sc.owns a = false) {fuel : Nat} {x xa : Shared}
    {pages own : List (List ExecutionSummary)}
    (hpages : pagesOf base fuel { q with appID := [] } x = some (.ok pages))
    (hown : pagesOf base' fuel { q with appID := a } xa = some (.ok own)) :
    RoutesAgree sc a (sidecarRows toLower sc q) pages.flatten
        (walkRows (pagesOf (compositeList toLower sc base) fuel { q with appID := [] } x))
        (walkRows (pagesOf (compositeList toLower sc base') fuel { q with appID := a } xa)) ↔
      (rowsOfApp a (keptRows (sidecarRows toLower sc q) pages)).Perm own.flatten := by
  have hall := @rowsOfApp_all toLower sc q a base _ x pages hpages
  rw [rowsOfApp_sidecar_unowned ho, List.nil_append] at hall
  rw [scoped_unowned ha ho, hown]
  constructor
  · intro h
    exact hall.symm.trans h.rows
  · intro h
    refine ⟨hall.trans h, fun row hrow => ?_⟩
    rw [if_neg (by simp [ho])]
    exact (keptRows_sublist _ _).subset (mem_rowsOfApp.mp (hall.mem_iff.mp hrow)).1

/-- A merge that takes no row of the app off page one keeps them all. -/
theorem rowsOfApp_kept {pages : List (List ExecutionSummary)}
    (hfree : ∀ row ∈ pages.flatten, row.appID = a →
      rowKey row ∉ (sidecarRows toLower sc q).map rowKey) :
    rowsOfApp a (keptRows (sidecarRows toLower sc q) pages) = rowsOfApp a pages.flatten := by
  cases pages with
  | nil => rfl
  | cons page pages =>
      rw [List.flatten_cons] at hfree
      rw [keptRows, rowsOfApp, List.flatten_cons, rowsOfApp, List.filter_append, List.filter_append,
        List.filter_filter]
      congr 1
      refine List.filter_congr fun row hrow => ?_
      by_cases he : row.appID = a
      · simp [he, hfree row (List.mem_append_left _ hrow) he]
      · simp [he]

/-! ## 3. A base that fails -/

theorem failing_all {e : LoadError} (fuel : Nat) (x : Shared) :
    pagesOf (compositeList toLower sc fun _ _ => some (.error e)) (fuel + 1)
        { q with appID := [] } x =
      if storeMissing e && sc.hasEndpoints then some (.ok [sidecarRows toLower sc q])
      else some (.error e) := by
  have hlist : compositeList toLower sc (fun _ _ => some (.error e))
      { q with appID := [], pageToken := [] } x =
        if storeMissing e && sc.hasEndpoints then
          some (.ok (⟨sidecarRows toLower sc q, []⟩, x)) else some (.error e) := by
    unfold compositeList
    rw [if_neg (not_not.mpr rfl)]
    simp only
    cases storeMissing e && sc.hasEndpoints with
    | false => rfl
    | true =>
        have hside := @sidecar_list toLower sc { q with appID := [], pageToken := [] } rfl
        simp only [Bool.not_true, Bool.false_eq_true, if_false, ne_eq, not_true_eq_false, hside,
          if_true]
        rfl
  rw [pagesOf, walkPages, pageCall, hlist]
  cases storeMissing e && sc.hasEndpoints <;> simp

theorem scopedRows_unowned (hown : sc.owns a = false) : scopedRows toLower sc q a = [] :=
  List.Perm.nil_eq (rowsOfApp_sidecar_unowned hown ▸ sidecar_scoped_perm) |>.symm

theorem routesAgree_failing (ha : a ≠ []) (e : LoadError) (fuel : Nat) (x xa : Shared) :
    RoutesAgree sc a (sidecarRows toLower sc q) []
        (walkRows (pagesOf (compositeList toLower sc fun _ _ => some (.error e)) (fuel + 1)
          { q with appID := [] } x))
        (walkRows (pagesOf (compositeList toLower sc fun _ _ => some (.error e)) (fuel + 1)
          { q with appID := a } xa)) ↔
      (storeMissing e && sc.hasEndpoints) = true ∨ scopedRows toLower sc q a = [] := by
  have hscoped : walkRows (pagesOf (compositeList toLower sc fun _ _ => some (.error e)) (fuel + 1)
      { q with appID := a } xa) = scopedRows toLower sc q a := by
    cases ho : sc.owns a with
    | true =>
        rw [scoped_owned ha ho]
        simp [walkRows]
    | false =>
        rw [scoped_unowned ha ho, scopedRows_unowned ho]
        rfl
  rw [hscoped, failing_all]
  have hside := @sidecar_scoped_perm toLower sc q a
  cases hsup : storeMissing e && sc.hasEndpoints with
  | true =>
      simp only [if_true, true_or, iff_true]
      have hrows : walkRows (some (.ok [sidecarRows toLower sc q])) = sidecarRows toLower sc q := by
        simp [walkRows]
      rw [hrows]
      refine ⟨hside, fun row hrow => ?_⟩
      obtain ⟨hmem, rfl⟩ := mem_rowsOfApp.mp hrow
      rwa [if_pos (owns_of_mem_sidecarRows hmem)]
  | false =>
      simp only [Bool.false_eq_true, if_false, false_or]
      have hrows : walkRows (some (.error e)) = [] := rfl
      rw [hrows]
      constructor
      · intro h
        exact h.rows.nil_eq.symm
      · intro h
        rw [h]
        exact ⟨List.Perm.refl _, fun row hrow => by cases hrow⟩

end Scoped

/-! ## 4. The keys of the two walks -/

/-- The keys of a scan. -/
def scanKeys (ns : Str) (c : Content) (app : Str) : List Str := c.keysLike (metaPattern ns app)

/-- An instance of the app, and it loads. -/
def live (cd : Codec) (ns : Str) (c : Content) (a : Str) (r : InstanceRef) : Bool :=
  decide (r.appID = a) && (summaryOf cd (storeOf c) ns c r).isSome

theorem live_iff {cd : Codec} {ns : Str} {c : Content} {a : Str} {r : InstanceRef} :
    live cd ns c a r = true ↔
      r.appID = a ∧ ∃ row, summaryOf cd (storeOf c) ns c r = some row := by
  rw [live, Bool.and_eq_true, decide_eq_true_eq, Option.isSome_iff_exists]

/-- **A walk on an unchanging store**: its pages are cut in some way, and the cache is filled by
    calls on this content, before the walk and while it goes on. -/
structure Steady (cd : Codec) (s : StoreReads) (ns : Str) (c : Content) (others : Others)
    (x : Shared) : Prop where
  serves : Serves s c
  cursor : Cursor s c
  cache : Honest cd s ns c x.cache
  others : ∀ n cache, Honest cd s ns c cache → Honest cd s ns c (others n cache)

/-- **The routes always agree on an app**: for every query, however the pages of the two walks are
    cut and whatever the cache serves. -/
def AlwaysAgree (cd : Codec) (toLower : Str → Str) (svc : Service) (c : Content)
    (sc : SidecarService) (a : Str) : Prop :=
  ∀ (q : ListQuery) (s sa : StoreReads) (others othersa : Others) (x xa : Shared),
    Steady cd s (svc.effectiveNS []) c others x →
    Steady cd sa (svc.effectiveNS a) c othersa xa →
    ∃ N, ∀ fuel ≥ N, ∃ pages,
      pagesOf ((svc.over s).list cd toLower others fuel) fuel { q with appID := [] } x =
        some (.ok pages) ∧
      RoutesAgree sc a (sidecarRows toLower sc q) pages.flatten
        (walkRows (pagesOf (compositeList toLower sc ((svc.over s).list cd toLower others fuel))
          fuel { q with appID := [] } x))
        (walkRows (pagesOf (compositeList toLower sc ((svc.over sa).list cd toLower othersa fuel))
          fuel { q with appID := a } xa))

/-- **What it takes of the keys**, for an app that the sidecars own: no key of the scan over all
    apps is shown as a row of it. -/
def Absent (cd : Codec) (ns : Str) (c : Content) (a : Str) : Prop :=
  ∀ r ∈ refsOf (scanKeys ns c []), ∀ row, Shows cd (storeOf c) ns c r row → row.appID ≠ a

/-- **What it takes of the keys**, for another app. Its own scan matches no other app's key; over
    all apps the cache takes none of its instances for another app's, nor the other way round; both
    scans have the same instances of it; the dedup of neither drops one; and no sidecar holds an
    instance with the merge key of one. -/
structure RouteKeys (cd : Codec) (ns nsa : Str) (c : Content) (sc : SidecarService) (a : Str) :
    Prop where
  own : ∀ r ∈ refsOf (scanKeys nsa c a), ∀ row, Shows cd (storeOf c) nsa c r row → row.appID = a
  told : ∀ r ∈ refsOf (scanKeys ns c []), ∀ row, Shows cd (storeOf c) ns c r row →
    (row.appID = a ↔ r.appID = a)
  same : ∀ r row, r.appID = a →
    ((r ∈ refsOf (scanKeys ns c []) ∧ summaryOf cd (storeOf c) ns c r = some row) ↔
      (r ∈ refsOf (scanKeys nsa c a) ∧ summaryOf cd (storeOf c) nsa c r = some row))
  once : Once (live cd ns c a) (scanKeys ns c [])
  onceOwn : Once (live cd nsa c a) (scanKeys nsa c a)
  free : ∀ r ∈ refsOf (scanKeys ns c []), live cd ns c a r = true →
    ∀ h ∈ sc.held, rowKey h ≠ r.dedupKey

section Keys

variable {cd : Codec} {toLower : Str → Str} {c : Content} {a : Str}

theorem rowKey_of_summaryOf {s : StoreReads} {ns : Str} {r : InstanceRef} {row : ExecutionSummary}
    (h : summaryOf cd s ns c r = some row) : rowKey row = r.dedupKey := by
  have hid := ids_of_summaryOf h
  rw [← hid]
  rfl

theorem mem_pickedRows {ns : Str} {q : ListQuery} {p : InstanceRef → Bool} {ks : List Str}
    {row : ExecutionSummary} :
    row ∈ pickedRows cd toLower ns c q p ks ↔
      ∃ r ∈ refsOf ks, p r = true ∧ summaryOf cd (storeOf c) ns c r = some row ∧
        matchesQuery toLower row q = true := by
  rw [pickedRows, mem_rowsOf]
  simp only [List.mem_filter, and_assoc]

variable {ns nsa : Str} {sc : SidecarService}

/-- A row over all apps tells whether it is of `a`. -/
theorem RouteKeys.picks (h : RouteKeys cd ns nsa c sc a) :
    Picks cd ns c (live cd ns c a) (fun row => decide (row.appID = a)) (scanKeys ns c []) := by
  intro r hr row hshow
  have htold := h.told r hr row hshow
  refine ⟨?_, fun hl => ?_⟩
  · have hsome := exists_summaryOf_of_shows (serves_storeOf c) hshow
    rw [Bool.eq_iff_iff, decide_eq_true_eq, live_iff, htold]
    exact (and_iff_left hsome).symm
  · have hra := (live_iff.mp hl).1
    exact summaryOf_of_shows hshow ((htold.mpr hra).trans hra.symm)

/-- With the app-id every row is of `a`. -/
theorem RouteKeys.picksOwn (h : RouteKeys cd ns nsa c sc a) :
    Picks cd nsa c (live cd nsa c a) (fun _ => true) (scanKeys nsa c a) := by
  intro r hr row hshow
  obtain ⟨row', hrow'⟩ := exists_summaryOf_of_shows (serves_storeOf c) hshow
  have hra := (congrArg InstanceRef.appID (ids_of_summaryOf hrow')).symm.trans
    (h.own r hr row' (.inl hrow'))
  refine ⟨(live_iff.mpr ⟨hra, row', hrow'⟩).symm, fun _ => ?_⟩
  exact summaryOf_of_shows hshow ((h.own r hr row hshow).trans hra.symm)

/-- The rows of the two walks. -/
theorem RouteKeys.perm (h : RouteKeys cd ns nsa c sc a) (q : ListQuery) :
    (pickedRows cd toLower ns c { q with appID := [] } (live cd ns c a) (scanKeys ns c [])).Perm
      (pickedRows cd toLower nsa c { q with appID := a } (live cd nsa c a) (scanKeys nsa c a)) := by
  refine (List.perm_ext_iff_of_nodup (List.Nodup.of_map _ (nodup_pickedRows h.once))
    (List.Nodup.of_map _ (nodup_pickedRows h.onceOwn))).mpr fun row => ?_
  rw [mem_pickedRows, mem_pickedRows]
  constructor
  · intro hm
    obtain ⟨r, hr, hl, hsum, hmatch⟩ := hm
    obtain ⟨hr', hsum'⟩ := (h.same r row (live_iff.mp hl).1).mp ⟨hr, hsum⟩
    exact ⟨r, hr', live_iff.mpr ⟨(live_iff.mp hl).1, row, hsum'⟩, hsum', hmatch⟩
  · intro hm
    obtain ⟨r, hr, hl, hsum, hmatch⟩ := hm
    obtain ⟨hr', hsum'⟩ := (h.same r row (live_iff.mp hl).1).mpr ⟨hr, hsum⟩
    exact ⟨r, hr', live_iff.mpr ⟨(live_iff.mp hl).1, row, hsum'⟩, hsum', hmatch⟩

variable {svc : Service}

/-- **Clear keys make the routes agree.** -/
theorem alwaysAgree_of_routeKeys (ha : a ≠ []) (ho : sc.owns a = false)
    (h : RouteKeys cd (svc.effectiveNS []) (svc.effectiveNS a) c sc a) :
    AlwaysAgree cd toLower svc c sc a := by
  intro q s sa others othersa x xa hst hsta
  obtain ⟨N, hN⟩ := @pages_picked cd toLower _ _ c { q with appID := [] } _ _ hst.serves
    (svc.over s) rfl hst.cursor hst.others h.picks h.once x hst.cache
  obtain ⟨M, hM⟩ := @pages_picked cd toLower _ _ c { q with appID := a } _ _ hsta.serves
    (svc.over sa) rfl hsta.cursor hsta.others h.picksOwn h.onceOwn xa hsta.cache
  refine ⟨N + M, fun fuel hfuel => ?_⟩
  obtain ⟨pages, hpages, hperm⟩ := hN fuel (by omega)
  obtain ⟨own, hown, hpermₐ⟩ := hM fuel (by omega)
  rw [List.filter_true] at hpermₐ
  refine ⟨pages, hpages, (routesAgree_unowned ha ho hpages hown).mpr ?_⟩
  rw [rowsOfApp_kept]
  · exact hperm.trans ((h.perm q).trans hpermₐ.symm)
  · intro row hrow hra hmem
    obtain ⟨r, hr, hl, hsum, -⟩ := mem_pickedRows.mp
      (hperm.mem_iff.mp (mem_rowsOfApp.mpr ⟨hrow, hra⟩))
    obtain ⟨row', hrow', he⟩ := List.mem_map.mp hmem
    exact h.free r hr hl row' (mem_sidecarRows.mp hrow').1 (he.trans (rowKey_of_summaryOf hsum))

/-! ## 5. Routes that always agree need clear keys -/

/-- The query that accepts everything, and the size of its pages. -/
def allOf (n : Nat) : ListQuery := { pageSize := n + 1, includeChildren := true }

theorem le_pageSize_allOf {n k : Nat} (h : k ≤ n) (app : Str) :
    k ≤ ({ allOf n with appID := app } : ListQuery).effectivePageSize.toNat := by
  unfold ListQuery.effectivePageSize allOf
  rw [if_neg (by simp only; omega)]
  simp only
  omega

theorem steady_resetTo {s : StoreReads} (hs : Serves s c) (hcur : Cursor s c)
    {cache : SummaryCache} (hc : Honest cd (storeOf c) ns c cache) :
    Steady cd s ns c (resetTo cache) ⟨cache, 0⟩ := by
  have hc' : Honest cd s ns c cache := by
    unfold Honest
    rw [shows_congr hs (serves_storeOf c)]
    exact hc
  exact ⟨hs, hcur, hc', fun _ _ _ => hc'⟩

/-- What the all-apps walk keeps of the app is what the walk with the app-id has. -/
theorem AlwaysAgree.perm (h : AlwaysAgree cd toLower svc c sc a) (ha : a ≠ [])
    (ho : sc.owns a = false) {q : ListQuery} {s sa : StoreReads} {others othersa : Others}
    {x xa : Shared} (hst : Steady cd s (svc.effectiveNS []) c others x)
    (hsta : Steady cd sa (svc.effectiveNS a) c othersa xa)
    {P Pa : List (List ExecutionSummary) → Prop}
    (hw : ∃ N, ∀ fuel ≥ N, ∃ pages, pagesOf ((svc.over s).list cd toLower others fuel) fuel
      { q with appID := [] } x = some (.ok pages) ∧ P pages)
    (hwa : ∃ N, ∀ fuel ≥ N, ∃ own, pagesOf ((svc.over sa).list cd toLower othersa fuel) fuel
      { q with appID := a } xa = some (.ok own) ∧ Pa own) :
    ∃ pages own, P pages ∧ Pa own ∧
      (rowsOfApp a (keptRows (sidecarRows toLower sc q) pages)).Perm own.flatten := by
  obtain ⟨L, hL⟩ := h q s sa others othersa x xa hst hsta
  obtain ⟨N, hN⟩ := hw
  obtain ⟨M, hM⟩ := hwa
  obtain ⟨pages, hpages, hagree⟩ := hL (L + N + M) (by omega)
  obtain ⟨pages', hpages', hP⟩ := hN (L + N + M) (by omega)
  obtain ⟨own, hown, hPa⟩ := hM (L + N + M) (by omega)
  obtain rfl := Except.ok.inj (Option.some.inj (hpages.symm.trans hpages'))
  exact ⟨pages, own, hP, hPa, (routesAgree_unowned ha ho hpages hown).mp hagree⟩

/-- The rows of page one that the merge leaves. -/
def unmerged (sc : SidecarService) (rows : List ExecutionSummary) : List ExecutionSummary :=
  rows.filter fun row => decide (rowKey row ∉ sc.held.map rowKey)

theorem mem_sidecarRows_allOf {n : Nat} {row : ExecutionSummary} :
    row ∈ sidecarRows toLower sc (allOf n) ↔ row ∈ sc.held := by
  rw [mem_sidecarRows]
  exact and_iff_left (matches_of_unfiltered rfl row)

section Needed

variable (h : AlwaysAgree cd toLower svc c sc a) (ha : a ≠ []) (ho : sc.owns a = false)
  {cache cachea : SummaryCache} (hc : Honest cd (storeOf c) (svc.effectiveNS []) c cache)
  (hca : Honest cd (storeOf c) (svc.effectiveNS a) c cachea)

include h ha ho hc hca

/-- Both walks go over the keys one by one. -/
theorem AlwaysAgree.spread :
    (rowsOfApp a (servedAll cd (svc.effectiveNS []) c cache
      (scanKeys (svc.effectiveNS []) c []))).Perm
        (servedAll cd (svc.effectiveNS a) c cachea (scanKeys (svc.effectiveNS a) c a)) := by
  obtain ⟨pages, own, ⟨rest, rfl, hrest⟩, ⟨resta, rfl, hresta⟩, hperm⟩ := h.perm ha ho
    (steady_resetTo (serves_spreadStore c) (cursor_spreadStore c) hc)
    (steady_resetTo (serves_spreadStore c) (cursor_spreadStore c) hca)
    (pages_spread (q := { allOf 0 with appID := [] }) rfl cache ⟨cache, 0⟩)
    (pages_spread (q := { allOf 0 with appID := a }) rfl cachea ⟨cachea, 0⟩)
  exact ((hrest.filter _).symm.trans hperm).trans hresta

/-- The all-apps walk has them on one page. -/
theorem AlwaysAgree.wholeAll :
    (rowsOfApp a (unmerged sc (servedRows cd (svc.effectiveNS []) c cache
      (scanKeys (svc.effectiveNS []) c [])))).Perm
        (servedAll cd (svc.effectiveNS a) c cachea (scanKeys (svc.effectiveNS a) c a)) := by
  let n := (scanKeys (svc.effectiveNS []) c []).length
  obtain ⟨pages, own, ⟨items, rfl, hitems⟩, ⟨resta, rfl, hresta⟩, hperm⟩ := h.perm ha ho
    (steady_resetTo (serves_pageStore c) (cursor_pageStore c) hc)
    (steady_resetTo (serves_spreadStore c) (cursor_spreadStore c) hca)
    (pages_whole (q := { allOf n with appID := [] }) rfl cache ⟨cache, 0⟩
      (le_pageSize_allOf le_rfl []))
    (pages_spread (q := { allOf n with appID := a }) rfl cachea ⟨cachea, 0⟩)
  have hkept : keptRows (sidecarRows toLower sc (allOf n)) [items] = unmerged sc items := by
    rw [keptRows, List.flatten_nil, List.append_nil, unmerged]
    refine List.filter_congr fun row _ => ?_
    simp only [List.mem_map, mem_sidecarRows_allOf]
  rw [hkept] at hperm
  exact (((hitems.filter _).filter _).symm.trans hperm).trans hresta

/-- The walk with the app-id has them on one page. -/
theorem AlwaysAgree.wholeOwn :
    (rowsOfApp a (servedAll cd (svc.effectiveNS []) c cache
      (scanKeys (svc.effectiveNS []) c []))).Perm
        (servedRows cd (svc.effectiveNS a) c cachea (scanKeys (svc.effectiveNS a) c a)) := by
  let n := (scanKeys (svc.effectiveNS a) c a).length
  obtain ⟨pages, own, ⟨rest, rfl, hrest⟩, ⟨items, rfl, hitems⟩, hperm⟩ := h.perm ha ho
    (steady_resetTo (serves_spreadStore c) (cursor_spreadStore c) hc)
    (steady_resetTo (serves_pageStore c) (cursor_pageStore c) hca)
    (pages_spread (q := { allOf n with appID := [] }) rfl cache ⟨cache, 0⟩)
    (pages_whole (q := { allOf n with appID := a }) rfl cachea ⟨cachea, 0⟩
      (le_pageSize_allOf le_rfl a))
  rw [List.flatten_singleton] at hperm
  exact ((hrest.filter _).symm.trans hperm).trans hitems

end Needed

/-- Whether what is shown of an instance is a row of the app. -/
def tells (a : Str) (f : InstanceRef → Option ExecutionSummary) (r : InstanceRef) : Bool :=
  (f r).any fun row => decide (row.appID = a)

theorem length_rowsOfApp (f : InstanceRef → Option ExecutionSummary) (refs : List InstanceRef) :
    (rowsOfApp a (refs.filterMap f)).length = (refs.filter (tells a f)).length := by
  induction refs with
  | nil => rfl
  | cons r refs ih =>
      cases hf : f r with
      | none =>
          rw [List.filterMap_cons_none hf, List.filter_cons_of_neg (by simp [tells, hf]), ih]
      | some row =>
          rw [List.filterMap_cons_some hf, rowsOfApp]
          by_cases he : row.appID = a
          · rw [List.filter_cons_of_pos (by simpa using he),
              List.filter_cons_of_pos (by simpa [tells, hf] using he), List.length_cons,
              List.length_cons]
            exact congrArg (· + 1) ih
          · rw [List.filter_cons_of_neg (by simpa using he),
              List.filter_cons_of_neg (by simpa [tells, hf] using he)]
            exact ih

/-- An empty cache tells of the instances of the app that load. -/
theorem tells_empty (n : Nat) :
    tells a (servedFrom cd (storeOf c) ns c (newSummaryCache n)) = live cd ns c a := by
  funext r
  rw [Bool.eq_iff_iff, live_iff, tells, servedFrom_empty]
  cases hs : summaryOf cd (storeOf c) ns c r with
  | none => simp
  | some row =>
      have hid := congrArg InstanceRef.appID (ids_of_summaryOf hs)
      simp only at hid
      simp [← hid]

/-- Filters of which one lets through what the other does are the same, if they let through as
    many. -/
theorem filter_eq_of_length {p p' : InstanceRef → Bool} {refs : List InstanceRef}
    (hp : ∀ r, p r = true → p' r = true) (hlen : (refs.filter p').length ≤ (refs.filter p).length) :
    refs.filter p = refs.filter p' := by
  have hsub : List.Sublist (refs.filter p) (refs.filter p') :=
    List.monotone_filter_right refs fun r => hp r
  exact hsub.eq_of_length (Nat.le_antisymm hsub.length_le hlen)

/-- **A cache that showed one of `a` for another app's, or another app's for one of `a`**, would
    change how many rows of `a` there are. -/
theorem told_of_length {ks : List Str}
    (h : ∀ {cache}, Honest cd (storeOf c) ns c cache →
      (rowsOfApp a (servedAll cd ns c cache ks)).length =
        ((refsOf ks).filter (live cd ns c a)).length) {r : InstanceRef} (hr : r ∈ refsOf ks)
    {row : ExecutionSummary} (hshow : Shows cd (storeOf c) ns c r row) :
    row.appID = a ↔ r.appID = a := by
  obtain ⟨cache, hc, hserved, hrest⟩ := exists_servedFrom hshow
  obtain ⟨row', hrow'⟩ := exists_summaryOf_of_shows (serves_storeOf c) hshow
  have hid := congrArg InstanceRef.appID (ids_of_summaryOf hrow')
  have hlen := h hc
  rw [servedAll, length_rowsOfApp] at hlen
  have hother : ∀ r', servedFrom cd (storeOf c) ns c cache r' = summaryOf cd (storeOf c) ns c r' →
      tells a (servedFrom cd (storeOf c) ns c cache) r' = live cd ns c a r' := by
    intro r' hr'
    rw [← tells_empty 0, tells, tells, servedFrom_empty, hr']
  constructor
  · intro hra
    -- the cache tells of all that load, and so of no other
    have hmore : ∀ r', live cd ns c a r' = true →
        tells a (servedFrom cd (storeOf c) ns c cache) r' = true := by
      intro r' hl
      rcases hrest r' with he | he
      · rw [hother r' he, hl]
      · simp [tells, he, hra]
    have hfil := filter_eq_of_length hmore hlen.le
    have hmem : r ∈ (refsOf ks).filter (tells a (servedFrom cd (storeOf c) ns c cache)) :=
      List.mem_filter.mpr ⟨hr, by simp [tells, hserved, hra]⟩
    rw [← hfil] at hmem
    exact (live_iff.mp (List.mem_filter.mp hmem).2).1
  · intro hra
    by_contra hne
    have hfewer : ∀ r', tells a (servedFrom cd (storeOf c) ns c cache) r' = true →
        live cd ns c a r' = true := by
      intro r' ht
      rcases hrest r' with he | he
      · rwa [← hother r' he]
      · exact absurd ht (by simp [tells, he, hne])
    have hfil := filter_eq_of_length hfewer hlen.ge
    have hmem : r ∈ (refsOf ks).filter (live cd ns c a) :=
      List.mem_filter.mpr ⟨hr, live_iff.mpr ⟨hra, row', hrow'⟩⟩
    rw [← hfil] at hmem
    exact absurd (List.mem_filter.mp hmem).2 (by simp [tells, hserved, hne])

theorem mem_servedAll_empty {n : Nat} {ks : List Str} {row : ExecutionSummary} :
    row ∈ servedAll cd ns c (newSummaryCache n) ks ↔
      rowRef row ∈ refsOf ks ∧ summaryOf cd (storeOf c) ns c (rowRef row) = some row := by
  simp only [servedAll, List.mem_filterMap, servedFrom_empty]
  constructor
  · intro hm
    obtain ⟨r, hr, hsum⟩ := hm
    obtain rfl : rowRef row = r := ids_of_summaryOf hsum
    exact ⟨hr, hsum⟩
  · intro hm
    exact ⟨_, hm⟩

/-- A page of all keys that has as many rows of the app as the keys one by one: the dedup drops
    none. -/
theorem dedup_of_length {n : Nat} {ks : List Str}
    (h : (rowsOfApp a (servedAll cd ns c (newSummaryCache n) ks)).length ≤
      (rowsOfApp a (servedRows cd ns c (newSummaryCache n) ks)).length) :
    (refsFromKeys ks []).1.filter (live cd ns c a) = (refsOf ks).filter (live cd ns c a) := by
  rw [servedAll, servedRows, length_rowsOfApp, length_rowsOfApp, tells_empty] at h
  have hsub := (refsFromKeys_sublist ks []).filter (live cd ns c a)
  exact hsub.eq_of_length (Nat.le_antisymm hsub.length_le h)

/-- **Routes that always agree need clear keys.** -/
theorem routeKeys_of_alwaysAgree (ha : a ≠ []) (ho : sc.owns a = false)
    (h : AlwaysAgree cd toLower svc c sc a) :
    RouteKeys cd (svc.effectiveNS []) (svc.effectiveNS a) c sc a := by
  have hempty : ∀ ns, Honest cd (storeOf c) ns c (newSummaryCache 0) :=
    fun ns => honest_empty _ _ _ _ _
  have hspread := fun {cache cachea} => @AlwaysAgree.spread cd toLower c a sc svc h ha ho cache cachea
  have hnone := hspread (hempty _) (hempty _)
  have hall := h.wholeAll ha ho (hempty _) (hempty _)
  have hone := h.wholeOwn ha ho (hempty _) (hempty _)
  have hcount : ∀ {cache}, Honest cd (storeOf c) (svc.effectiveNS []) c cache →
      (rowsOfApp a (servedAll cd (svc.effectiveNS []) c cache
        (scanKeys (svc.effectiveNS []) c []))).length =
          ((refsOf (scanKeys (svc.effectiveNS []) c [])).filter
            (live cd (svc.effectiveNS []) c a)).length := by
    intro cache hc
    rw [((hspread hc (hempty _)).trans hnone.symm).length_eq, servedAll, length_rowsOfApp,
      tells_empty]
  -- page one of the all-apps walk: neither the dedup nor the merge takes a row of `a`
  have hsub : List.Sublist
      (rowsOfApp a (unmerged sc (servedRows cd (svc.effectiveNS []) c (newSummaryCache 0)
        (scanKeys (svc.effectiveNS []) c []))))
      (rowsOfApp a (servedRows cd (svc.effectiveNS []) c (newSummaryCache 0)
        (scanKeys (svc.effectiveNS []) c []))) := List.filter_sublist.filter _
  have hlen := (hall.trans hnone.symm).length_eq
  have hdedup := dedup_of_length (hlen ▸ hsub.length_le)
  have hkept := hsub.eq_of_length (Nat.le_antisymm hsub.length_le (by
    rw [hlen, hcount (hempty _), servedRows, length_rowsOfApp, tells_empty, hdedup]))
  -- the walk with the app-id: all its rows are of `a`
  have hownRows : ∀ {rows}, (rowsOfApp a (servedAll cd (svc.effectiveNS []) c (newSummaryCache 0)
      (scanKeys (svc.effectiveNS []) c []))).Perm rows → rowsOfApp a rows = rows := fun hperm =>
    List.filter_eq_self.mpr fun row hrow =>
      decide_eq_true (mem_rowsOfApp.mp (hperm.mem_iff.mpr hrow)).2
  refine ⟨fun r hr row hshow => ?_, fun r hr row hshow => told_of_length hcount hr hshow,
    fun r row hra => ⟨fun hm => ?_, fun hm => ?_⟩, (refsFromKeys_filter_iff.mp hdedup).1,
    (refsFromKeys_filter_iff.mp (dedup_of_length (n := 0) ?_)).1, fun r hr hl x hx he => ?_⟩
  · obtain ⟨cachea, hca, hserved, -⟩ := exists_servedFrom hshow
    have hmem : row ∈ servedAll cd (svc.effectiveNS a) c cachea (scanKeys (svc.effectiveNS a) c a) :=
      List.mem_filterMap.mpr ⟨r, hr, hserved⟩
    exact (mem_rowsOfApp.mp ((hspread (hempty _) hca).mem_iff.mpr hmem)).2
  · obtain rfl : rowRef row = r := ids_of_summaryOf hm.2
    exact mem_servedAll_empty.mp
      (hnone.mem_iff.mp (mem_rowsOfApp.mpr ⟨mem_servedAll_empty.mpr hm, hra⟩))
  · obtain rfl : rowRef row = r := ids_of_summaryOf hm.2
    exact mem_servedAll_empty.mp
      (mem_rowsOfApp.mp (hnone.mem_iff.mpr (mem_servedAll_empty.mpr hm))).1
  · rw [hownRows hnone, hownRows hone]
    exact (hnone.symm.trans hone).length_eq.le
  · obtain ⟨hra, row, hsum⟩ := live_iff.mp hl
    have hid := congrArg InstanceRef.appID (ids_of_summaryOf hsum)
    have hr' : r ∈ (refsFromKeys (scanKeys (svc.effectiveNS []) c []) []).1.filter
        (live cd (svc.effectiveNS []) c a) := hdedup ▸ List.mem_filter.mpr ⟨hr, hl⟩
    have hrow : row ∈ servedRows cd (svc.effectiveNS []) c (newSummaryCache 0)
        (scanKeys (svc.effectiveNS []) c []) :=
      List.mem_filterMap.mpr ⟨r, (List.mem_filter.mp hr').1, (servedFrom_empty _ _ _).trans hsum⟩
    have hun := (mem_rowsOfApp.mp (hkept ▸ mem_rowsOfApp.mpr ⟨hrow, hid.trans hra⟩)).1
    refine of_decide_eq_true (List.mem_filter.mp hun).2 ?_
    rw [rowKey_of_summaryOf hsum, ← he]
    exact List.mem_map_of_mem hx

/-- **The routes always agree on an app that the sidecars own** exactly if the store has no row of
    it. -/
theorem alwaysAgree_owned_iff (ha : a ≠ []) (ho : sc.owns a = true) :
    AlwaysAgree cd toLower svc c sc a ↔ Absent cd (svc.effectiveNS []) c a := by
  constructor
  · intro h r hr row hshow hra
    obtain ⟨cache, hc, hserved, -⟩ := exists_servedFrom hshow
    have hst := steady_resetTo (serves_spreadStore c) (cursor_spreadStore c) hc
    have hsta := @steady_resetTo cd c (svc.effectiveNS a) _ (serves_spreadStore c)
      (cursor_spreadStore c) (newSummaryCache 0) (honest_empty _ _ _ _ _)
    obtain ⟨N, hN⟩ := h (allOf 0) _ _ _ _ _ _ hst hsta
    obtain ⟨M, hM⟩ := @pages_spread cd toLower c { allOf 0 with appID := [] } svc rfl cache
      ⟨cache, 0⟩
    obtain ⟨pages, hpages, hagree⟩ := hN (N + M + 1) (by omega)
    obtain ⟨pages', hpages', rest, rfl, hrest⟩ := hM (N + M + 1) (by omega)
    obtain rfl := Except.ok.inj (Option.some.inj (hpages.symm.trans hpages'))
    have hmem : row ∈ rest.flatten :=
      hrest.mem_iff.mpr (List.mem_filterMap.mpr ⟨r, hr, hserved⟩)
    exact (routesAgree_owned ha ho hpages).mp hagree row (List.mem_append_right _ hmem) hra
  · intro h q s sa others othersa x xa hst _
    have hpick : Picks cd (svc.effectiveNS []) c (fun _ => false)
        (fun row => decide (row.appID = a)) (scanKeys (svc.effectiveNS []) c []) := fun r hr row
      hshow => ⟨decide_eq_false (h r hr row hshow), fun hf => by cases hf⟩
    obtain ⟨N, hN⟩ := @pages_picked cd toLower _ _ c { q with appID := [] } _ _ hst.serves
      (svc.over s) rfl hst.cursor hst.others hpick
      (List.pairwise_of_forall fun _ _ hf => by cases hf) x hst.cache
    refine ⟨N + 1, fun fuel hfuel => ?_⟩
    obtain ⟨n, rfl⟩ := Nat.exists_eq_add_one_of_ne_zero (show fuel ≠ 0 by omega)
    obtain ⟨pages, hpages, hperm⟩ := hN (n + 1) (by omega)
    rw [pickedRows, List.filter_false] at hperm
    refine ⟨pages, hpages, (routesAgree_owned ha ho hpages).mpr fun row hrow hra => ?_⟩
    exact List.not_mem_nil (hperm.mem_iff.mp
      (List.mem_filter.mpr ⟨(keptRows_sublist _ _).subset hrow, decide_eq_true hra⟩))

/-- Clear keys are what an exact filter needs of them as well. -/
theorem RouteKeys.scansAgree (h : RouteKeys cd ns ns c sc a) :
    ScansAgree cd (storeOf c) ns c a := by
  have hlive : ∀ {app}, Once (live cd ns c a) (scanKeys ns c app) → ∀ r, live cd ns c a r = true →
      (r ∈ scanRefs ns c app ↔ r ∈ refsOf (scanKeys ns c app)) := by
    intro app honce r hl
    have hdedup := refsFromKeys_filter_iff.mpr
      ⟨honce, fun r _ _ => (List.not_mem_nil : r.dedupKey ∉ [])⟩
    have hmem := congrArg (r ∈ ·) hdedup
    show r ∈ (refsFromKeys (scanKeys ns c app) []).1 ↔ _
    simpa only [List.mem_filter, hl, and_true, eq_iff_iff] using hmem
  refine ⟨fun k hk r hp row hshow => h.own r (mem_refsOf.mpr ⟨k, hk, hp⟩) row hshow,
    fun r row hsum hra => ?_, fun r hr row hshow hra => ?_⟩
  · have hl : live cd ns c a r = true := live_iff.mpr ⟨hra, row, hsum⟩
    rw [hlive h.onceOwn r hl, hlive h.once r hl]
    have hsame := h.same r row hra
    exact ⟨fun hr => (hsame.mpr ⟨hr, hsum⟩).1, fun hr => (hsame.mp ⟨hr, hsum⟩).1⟩
  · exact (h.told r ((refsFromKeys_sublist _ _).subset hr) row hshow).mp hra

/-- **Plain ids over Dapr's own keys**: the keys are clear, if no app-id of a sidecar holds a
    slash. -/
theorem routeKeys_of_plain (hns : ¬ keyDelimiter <:+: ns) (hplain : Like.Plain ns ∧ Like.Plain a)
    (ha : a ≠ []) (hbar : '|' ∉ a) (hkeys : OwnKeys ns c a) (ho : sc.owns a = false)
    (hslash : ∀ ep ∈ sc.eps, '/' ∉ ep.appID) : RouteKeys cd ns ns c sc a := by
  have hagree := @scansAgree_of_plain cd (storeOf c) ns c a hns hplain ha hbar hkeys
  obtain ⟨hall, honce, hproper⟩ := @ownKeys_once cd ns c a hns hkeys _ hkeys.all
  obtain ⟨hown, honceOwn, -⟩ := @ownKeys_once cd ns c a hns hkeys _ hkeys.app
  have hscan : ∀ r, r ∈ scanRefs ns c [] ↔ r ∈ refsOf (scanKeys ns c []) := fun r => by
    rw [scanRefs, hall, scanKeys]
  have hscanOwn : ∀ r, r ∈ scanRefs ns c a ↔ r ∈ refsOf (scanKeys ns c a) := fun r => by
    rw [scanRefs, hown, scanKeys]
  refine ⟨fun r hr row hshow => ?_, fun r hr row hshow => ⟨fun hra => ?_, fun hra => ?_⟩,
    fun r row hra => and_congr_left fun hsum => ?_, honce _, honceOwn _, fun r hr hl h hh he => ?_⟩
  · obtain ⟨k, hk, hp⟩ := mem_refsOf.mp hr
    exact hagree.own k hk r hp row hshow
  · exact hagree.other r ((hscan r).mpr hr) row hshow hra
  · have hsum := (hproper r hr).2 row hshow
    exact (congrArg InstanceRef.appID (ids_of_summaryOf hsum)).trans hra
  · rw [← hscan, ← hscanOwn]
    exact (hagree.same r row hsum hra).symm
  · obtain ⟨ep, hep, hrow⟩ := List.mem_flatMap.mp hh
    have happ := appID_of_listApp hrow
    simp only [rowKey, InstanceRef.dedupKey, List.append_assoc, List.cons_append,
      List.nil_append] at he
    obtain ⟨hra, -⟩ := Str.append_cons_inj (happ ▸ hslash ep hep) (hproper r hr).1.app_slash he
    have hown : sc.owns a = true := List.any_eq_true.mpr ⟨ep, hep, by
      rw [decide_eq_true_eq, ← happ, hra, (live_iff.mp hl).1]⟩
    exact absurd hown (by simp [ho])

/-- **The routes agree, exactly if.** Over a store, whatever it holds: on an app that the sidecars
    own they always agree if the store has no row of it, and on one walk if the merge keeps none;
    on another app they always agree if the keys of the two scans are clear. Over a base that
    fails: if the sidecars may stand in for it, or list no row of the app. -/
theorem routes_agree_iff (cd : Codec) (toLower : Str → Str) (svc : Service) (c : Content)
    (sc : SidecarService) {a : Str} (ha : a ≠ []) :
    (sc.owns a = true →
      (AlwaysAgree cd toLower svc c sc a ↔ Absent cd (svc.effectiveNS []) c a) ∧
      ∀ (q : ListQuery) (s : StoreReads) (others : Others)
        (base : ListQuery → Shared → Option (Except LoadError (ListResult × Shared)))
        (x xa : Shared), Serves s c → Cursor s c →
        ∃ N, ∀ fuel ≥ N, ∃ pages,
          pagesOf ((svc.over s).list cd toLower others fuel) fuel { q with appID := [] } x =
            some (.ok pages) ∧
          (RoutesAgree sc a (sidecarRows toLower sc q) pages.flatten
              (walkRows (pagesOf (compositeList toLower sc
                ((svc.over s).list cd toLower others fuel)) fuel { q with appID := [] } x))
              (walkRows (pagesOf (compositeList toLower sc base) fuel { q with appID := a } xa)) ↔
            ∀ row ∈ keptRows (sidecarRows toLower sc q) pages, row.appID ≠ a)) ∧
    (sc.owns a = false →
      (AlwaysAgree cd toLower svc c sc a ↔
        RouteKeys cd (svc.effectiveNS []) (svc.effectiveNS a) c sc a)) ∧
    ∀ (q : ListQuery) (x xa : Shared) (e : LoadError) (fuel : Nat), 0 < fuel →
      (RoutesAgree sc a (sidecarRows toLower sc q) []
          (walkRows (pagesOf (compositeList toLower sc fun _ _ => some (.error e)) fuel
            { q with appID := [] } x))
          (walkRows (pagesOf (compositeList toLower sc fun _ _ => some (.error e)) fuel
            { q with appID := a } xa)) ↔
        (storeMissing e && sc.hasEndpoints) = true ∨ scopedRows toLower sc q a = []) := by
  refine ⟨fun ho => ⟨alwaysAgree_owned_iff ha ho, fun q s others base x xa hs hcur => ?_⟩,
    fun ho => ⟨routeKeys_of_alwaysAgree ha ho, alwaysAgree_of_routeKeys ha ho⟩,
    fun q x xa e fuel hfuel => ?_⟩
  · obtain ⟨N, hN⟩ := @walk_ends cd toLower others _ _ (svc.over s) rfl hs hcur
      { q with appID := [] } x
    refine ⟨N + 1, fun fuel hfuel => ?_⟩
    obtain ⟨n, rfl⟩ := Nat.exists_eq_add_one_of_ne_zero (show fuel ≠ 0 by omega)
    obtain ⟨pages, hpages, -⟩ := hN (n + 1) (by omega)
    exact ⟨pages, hpages, routesAgree_owned ha ho hpages⟩
  · obtain ⟨n, rfl⟩ := Nat.exists_eq_add_one_of_ne_zero hfuel.ne'
    exact routesAgree_failing ha e n x xa

end Keys

/-! ## 6. Two apps, and a stale row -/

/-- One walk over the three instances, with a sidecar of the app `pay`, one key a page: the routes
    agree on an app. -/
def AgreeOnOrders (a : Str) : Prop :=
  ∃ N, ∀ fuel ≥ N, ∃ pages,
    pagesOf (ordersService.list tinyCodec id (fun _ cache => cache) fuel) fuel oneAPage
      ⟨newSummaryCache maxCachedSummaries, 0⟩ = some (.ok pages) ∧
    RoutesAgree (oneSidecar pay7) a (sidecarRows id (oneSidecar pay7) oneAPage) pages.flatten
      (walkRows (pagesOf (compositeList id (oneSidecar pay7)
        (ordersService.list tinyCodec id (fun _ cache => cache) fuel)) fuel oneAPage
          ⟨newSummaryCache maxCachedSummaries, 0⟩))
      (walkRows (pagesOf (compositeList id (oneSidecar pay7)
        (ordersService.list tinyCodec id (fun _ cache => cache) fuel)) fuel
          { oneAPage with appID := a } ⟨newSummaryCache maxCachedSummaries, 0⟩))

theorem agreeOnOrders {a : Str}
    (h : AlwaysAgree tinyCodec id ordersService orders (oneSidecar pay7) a) : AgreeOnOrders a := by
  have hst : ∀ app, Steady tinyCodec (pageStore orders) (ordersService.effectiveNS app) orders
      (fun _ cache => cache) ⟨newSummaryCache maxCachedSummaries, 0⟩ := fun _ =>
    ⟨serves_pageStore orders, cursor_pageStore orders, honest_empty _ _ _ _ _, fun _ _ h => h⟩
  exact h oneAPage _ _ _ _ _ _ (hst []) (hst a)

theorem routes_agree_iff_orders :
    AgreeOnOrders "shop".toList ∧ AgreeOnOrders "pay".toList := by
  have hown := ownKeys_orders "shop".toList
  obtain ⟨-, -, hproper⟩ := @ownKeys_once tinyCodec "d".toList orders _ (by decide) hown _ hown.all
  have happs : ∀ r ∈ refsOf (scanKeys "d".toList orders []), r.appID ≠ "pay".toList := by decide
  have hkeys : RouteKeys tinyCodec "d".toList "d".toList orders (oneSidecar pay7) "shop".toList :=
    routeKeys_of_plain (by decide) (by decide) (by decide) (by decide) hown (by decide) (by
      intro ep hep
      rw [List.mem_singleton.mp hep]
      decide)
  have habsent : Absent tinyCodec "d".toList orders "pay".toList := by
    intro r hr row hshow hra
    have hsum := (hproper r hr).2 row hshow
    exact happs r hr ((congrArg InstanceRef.appID (ids_of_summaryOf hsum)).symm.trans hra)
  exact ⟨agreeOnOrders (((routes_agree_iff tinyCodec id ordersService orders (oneSidecar pay7)
      (by decide)).2.1 (by decide)).mpr hkeys),
    agreeOnOrders (((routes_agree_iff tinyCodec id ordersService orders (oneSidecar pay7)
      (by decide)).1 (by decide)).1.mpr habsent)⟩

/-- **A stale row of an app that the sidecars own**: the store has the instance `42` of the app
    `shop`, its sidecar has not. The all-apps walk shows it, the walk with the app-id does not, and
    `Get` would ask the sidecar. -/
theorem stale_row_listed :
    (oneSidecar order1).owns order42.appID = true ∧
    (∀ row ∈ (oneSidecar order1).held, rowRef row ≠ order42) ∧
    ¬ (rowsOfApp order42.appID (walkRows (pagesOf (compositeList id (oneSidecar order1)
        (twoOrdersService.list tinyCodec id (fun _ cache => cache) 2)) 2 oneAPage
          ⟨newSummaryCache maxCachedSummaries, 0⟩))).Perm
      (walkRows (pagesOf (compositeList id (oneSidecar order1)
        (twoOrdersService.list tinyCodec id (fun _ cache => cache) 2)) 2
          { oneAPage with appID := order42.appID } ⟨newSummaryCache maxCachedSummaries, 0⟩)) := by
  have hheld : ∀ row ∈ (oneSidecar order1).held, rowRef row ≠ order42 := by
    rw [held_oneSidecar]
    decide
  refine ⟨by decide, hheld, fun h => ?_⟩
  have hbase := pages_twoOrders 0
  have hkept : orderRow order42 ∈ keptRows (sidecarRows id (oneSidecar order1) oneAPage)
      [[orderRow order1], [orderRow order42]] := List.mem_append_right _ (by simp)
  have hshown : orderRow order42 ∈ walkRows (pagesOf (compositeList id (oneSidecar order1)
      (twoOrdersService.list tinyCodec id (fun _ cache => cache) 2)) 2 oneAPage
        ⟨newSummaryCache maxCachedSummaries, 0⟩) := by
    rw [compositePages_eq rfl hbase]
    exact (modifyHead_perm (pages_ne_nil hbase)).mem_iff.mpr (List.mem_append_right _ hkept)
  have hscoped := h.mem_iff.mp (mem_rowsOfApp.mpr ⟨hshown, rfl⟩)
  rw [scoped_owned (by decide) (by decide), walkRows, List.flatten_singleton] at hscoped
  have hside := (mem_rowsOfApp.mp (sidecar_scoped_perm.mem_iff.mpr hscoped)).1
  exact hheld _ (mem_sidecarRows.mp hside).1 rfl

end DevDashboard.Workflow
