/-
  File:      DevDashboard/Workflow/AppFilter.lean
  Subject:   WHAT THE APP FILTER OF `List` AND `Stats` LETS THROUGH (`pkg/workflow/service.go` over
             the patterns of `pkg/statestore/keys.go`).

  A query with an app-id scans with another pattern than one without, and the app-id of a row is
  read off its key. The filter is exact if the two scans agree on that app, and no more is needed.

  * `stats_eq_tally` -- `Stats` tallies `countedRows`;
  * `filterExact_iff` -- the filter is exact exactly if the scans are;
  * `scansAgree_of_plain` -- they are for a plain app-id over Dapr's own keys.
-/
import DevDashboard.Workflow.Rows

namespace DevDashboard.Workflow

open Lib StateStore

/-! ## 1. The rows `Stats` counts -/

/-- The rows that `Stats` counts. -/
def Service.countedRows (cd : Codec) (toLower : Str → Str) (others : Others) (svc : Service)
    (q : ListQuery) (x : Shared) : Except LoadError (List ExecutionSummary) :=
  match svc.store with
  | none => .error .noStore
  | some s => do
      let ns := svc.effectiveNS q.appID
      let (keys, _) ← metaKeys s ns q.appID [] 0
      let (results, _) ← loadSummaries cd others s ns (refsFromKeys keys []).1 x
      return accepted toLower { search := q.search, includeChildren := q.includeChildren } results

/-- The counts of some rows. -/
def tally (rows : List ExecutionSummary) : StatsResult :=
  rows.foldl StatsResult.add ⟨fun _ => 0, 0⟩

/-- **`Stats` tallies the rows it counts.** -/
theorem stats_eq_tally (cd : Codec) (toLower : Str → Str) (others : Others) (svc : Service)
    (q : ListQuery) (x : Shared) :
    (svc.stats cd toLower others q x).map Prod.fst =
      (svc.countedRows cd toLower others q x).map tally := by
  unfold Service.stats Service.countedRows
  cases svc.store with
  | none => rfl
  | some s =>
      simp only
      cases metaKeys s (svc.effectiveNS q.appID) q.appID [] 0 with
      | error e => rfl
      | ok page =>
          obtain ⟨keys, next⟩ := page
          simp only [bind, Except.bind]
          cases loadSummaries cd others s (svc.effectiveNS q.appID) (refsFromKeys keys []).1 x with
          | error e => rfl
          | ok loaded => rfl

/-! ## 2. The filter and the scans -/

/-- A page of a scan holds keys that match its pattern. -/
def Matching (s : StoreReads) (c : Content) : Prop :=
  ∀ pattern tok pageSize ks next, s.keys pattern tok pageSize = .ok (ks, next) →
    ∀ k ∈ ks, k ∈ c.keysLike pattern

/-- The instances that `Stats` goes through. -/
def scanRefs (ns : Str) (c : Content) (app : Str) : List InstanceRef :=
  (refsFromKeys (c.keysLike (metaPattern ns app)) []).1

/-- A cache filled by calls on this content. -/
def Honest (cd : Codec) (s : StoreReads) (ns : Str) (c : Content) (cache : SummaryCache) : Prop :=
  Serving ns c (Shows cd s ns c) cache

theorem honest_empty (cd : Codec) (s : StoreReads) (ns : Str) (c : Content) (max : Nat) :
    Honest cd s ns c (newSummaryCache max) := serving_empty ns c _ max

/-- **The filter is exact**: with the app-id `a` every row listed is one of `a`, and the rows
    counted are those of `a` among the rows counted over all apps. This holds for every page and
    search, whatever the cache holds and other calls do to it. -/
structure FilterExact (cd : Codec) (toLower : Str → Str) (svc : Service) (s : StoreReads) (c : Content)
    (a : Str) : Prop where
  list : ∀ (others : Others) (q : ListQuery) (fuel : Nat) (x x' : Shared) (res : ListResult),
    (∀ n cache, Honest cd s svc.ns c cache → Honest cd s svc.ns c (others n cache)) →
    Honest cd s svc.ns c x.cache → q.appID = a →
    svc.list cd toLower others fuel q x = some (.ok (res, x')) → ∀ row ∈ res.items, row.appID = a
  stats : ∀ (others : Others) (q : ListQuery) (x y : Shared),
    (∀ n cache, Honest cd s svc.ns c cache → Honest cd s svc.ns c (others n cache)) →
    Honest cd s svc.ns c x.cache → Honest cd s svc.ns c y.cache → q.appID = a →
    ∃ rows all, svc.countedRows cd toLower others q x = .ok rows ∧
      svc.countedRows cd toLower others { q with appID := [] } y = .ok all ∧
      (svc.stats cd toLower others q x).map Prod.fst = .ok (tally rows) ∧
      (svc.stats cd toLower others { q with appID := [] } y).map Prod.fst = .ok (tally all) ∧
      rows.Perm (all.filter fun row => decide (row.appID = a))

/-- **The scans agree on the app `a`**: no key that its own scan matches shows another app's row;
    each of its instances that loads is seen by both scans or by none; and no other app's instance
    is taken for one of `a` in the scan over all apps. -/
structure ScansAgree (cd : Codec) (s : StoreReads) (ns : Str) (c : Content) (a : Str) : Prop where
  own : ∀ k ∈ c.keysLike (metaPattern ns a), ∀ r, parseRef k = some r →
    ∀ row, Shows cd s ns c r row → row.appID = a
  same : ∀ r row, summaryOf cd s ns c r = some row → r.appID = a →
    (r ∈ scanRefs ns c a ↔ r ∈ scanRefs ns c [])
  other : ∀ r ∈ scanRefs ns c [], ∀ row, Shows cd s ns c r row → row.appID = a → r.appID = a

theorem nodup_refsFromKeys :
    ∀ (ks seen : List Str), (refsFromKeys ks seen).1.Nodup ∧
      ∀ r ∈ (refsFromKeys ks seen).1, r.dedupKey ∉ seen := by
  intro ks
  induction ks with
  | nil => exact fun _ => ⟨List.nodup_nil, fun _ h => absurd h List.not_mem_nil⟩
  | cons k ks ih =>
      intro seen
      rw [refsFromKeys]
      cases parseRef k with
      | none => exact ih seen
      | some r =>
          simp only
          split
          · exact ih seen
          · rename_i hr
            obtain ⟨hnd, hseen⟩ := ih (r.dedupKey :: seen)
            refine ⟨List.nodup_cons.mpr ⟨fun hm => hseen r hm List.mem_cons_self, hnd⟩, ?_⟩
            intro r' hr'
            rcases List.mem_cons.mp hr' with rfl | hr'
            · exact hr
            · exact fun hm => hseen r' hr' (List.mem_cons_of_mem _ hm)

theorem parse_of_mem_scanRefs {ns : Str} {c : Content} {app : Str} {r : InstanceRef}
    (h : r ∈ scanRefs ns c app) : ∃ k ∈ c.keysLike (metaPattern ns app), parseRef k = some r :=
  mem_refsFromKeys h

/-- Twins of one app are one instance. -/
theorem Twins.eq_of_appID {cd : Codec} {ns : Str} {c : Content} {r r' : InstanceRef}
    (h : Twins cd ns c r r') (ha : r.appID = r'.appID) : r = r' := by
  have hk := h.key
  simp only [InstanceRef.cacheKey, cacheKey, ha, List.append_cancel_left_eq] at hk
  cases r
  cases r'
  simp_all

section Exact

variable {cd : Codec} {toLower : Str → Str} {svc : Service} {s : StoreReads} {c : Content}

/-- What is shown for an instance is shown for one that loads. -/
theorem exists_summaryOf_of_shows (hs : Serves s c) {ns : Str} {r : InstanceRef}
    {row : ExecutionSummary} (h : Shows cd s ns c r row) : ∃ row', summaryOf cd s ns c r = some row' := by
  rcases h with h | ⟨r', ht, -⟩
  · exact ⟨row, h⟩
  · obtain ⟨n, hn⟩ := ht.symm.usable
    have hl := @loadWithMeta_eq cd _ _ hs ns r.appID r.id _ _ hn
    exact ⟨_, by simp only [summaryOf, hl]; rfl⟩

/-- A row shown for its own app is the instance's own. -/
theorem summaryOf_of_shows {ns : Str} {r : InstanceRef} {row : ExecutionSummary}
    (h : Shows cd s ns c r row) (ha : row.appID = r.appID) : summaryOf cd s ns c r = some row := by
  rcases h with h | ⟨r', ht, h⟩
  · exact h
  · have hid := congrArg InstanceRef.appID (ids_of_summaryOf h)
    obtain rfl := ht.eq_of_appID (hid.symm.trans ha)
    exact h

/-- Where the scans agree on `a`, a row that is one of `a`, or is shown for one of `a`, is the
    instance's own. -/
theorem ScansAgree.own_of_shows {ns a : Str} (hiso : ScansAgree cd s ns c a) (hs : Serves s c)
    {r : InstanceRef} (hr : r ∈ scanRefs ns c []) {row : ExecutionSummary}
    (h : Shows cd s ns c r row) (ha : row.appID = a ∨ r.appID = a) :
    summaryOf cd s ns c r = some row := by
  refine summaryOf_of_shows h ?_
  rcases ha with ha | ha
  · exact ha.trans (hiso.other r hr row h ha).symm
  · obtain ⟨row', hrow'⟩ := exists_summaryOf_of_shows hs h
    obtain ⟨k, hk, hp⟩ := parse_of_mem_scanRefs ((hiso.same r row' hrow' ha).mpr hr)
    exact (hiso.own k hk r hp row h).trans ha.symm

/-! ## 3. Agreeing scans make the filter exact -/

section Counted

variable (hstore : svc.store = some s) (hres : svc.nsResolver = none) (hs : Serves s c)

include hstore hres hs

/-- What `Stats` counts, with any honest cache. -/
theorem countedRows_eq {others : Others}
    (hothers : ∀ n cache, Honest cd s svc.ns c cache → Honest cd s svc.ns c (others n cache))
    (q : ListQuery) {x : Shared} (hx : Honest cd s svc.ns c x.cache) :
    ∃ results, svc.countedRows cd toLower others q x =
        .ok (accepted toLower { search := q.search, includeChildren := q.includeChildren } results) ∧
      List.Forall₂ (Allowed cd s svc.ns c (Shows cd s svc.ns c)) (scanRefs svc.ns c q.appID)
        results := by
  obtain ⟨next, hkeys⟩ := hs.keys (metaPattern svc.ns q.appID)
  obtain ⟨results, x', hload, hrows, -⟩ :=
    @loadSummaries_serving cd others s svc.ns c _ (fun _ _ h => h) hothers hs
      (scanRefs svc.ns c q.appID) x hx
  refine ⟨results, ?_, hrows⟩
  unfold Service.countedRows
  unfold scanRefs at hload
  simp only [hstore, effectiveNS_of_none hres, metaKeys, hkeys, bind, Except.bind, hload, pure,
    Except.pure]

end Counted

/-- Results that agree under a predicate are filtered to the same rows. -/
theorem filter_accepted_congr {q : ListQuery} {p : ExecutionSummary → Bool}
    {f : InstanceRef → Option ExecutionSummary} {refs : List InstanceRef}
    {results : List (Option ExecutionSummary)}
    (h : List.Forall₂ (fun r o => Option.filter p o = Option.filter p (f r)) refs results) :
    (accepted toLower q results).filter p = (accepted toLower q (refs.map f)).filter p := by
  induction h with
  | nil => rfl
  | @cons r o refs results ho _ ih =>
      have hcons : ∀ (o : Option ExecutionSummary) (rest : List (Option ExecutionSummary)),
          (accepted toLower q (o :: rest)).filter p =
            ((Option.filter p o).toList.filter (matchesQuery toLower · q)) ++
              (accepted toLower q rest).filter p := by
        intro o rest
        cases o with
        | none => simp [accepted]
        | some row =>
            by_cases hp : p row = true
            · by_cases hm : matchesQuery toLower row q = true
              · simp [accepted, Option.filter_some, hp, hm]
              · simp [accepted, Option.filter_some, hp, hm]
            · simp [accepted, Option.filter_some, hp]
      rw [List.map_cons, hcons, hcons, ho, ih]

/-- The rows of `a` among those counted over all apps, with any honest cache. -/
theorem ScansAgree.filter_all {ns a : Str} (hiso : ScansAgree cd s ns c a) (hs : Serves s c)
    {q : ListQuery} {results : List (Option ExecutionSummary)}
    (h : List.Forall₂ (Allowed cd s ns c (Shows cd s ns c)) (scanRefs ns c []) results) :
    (accepted toLower q results).filter (fun row => decide (row.appID = a)) =
      (accepted toLower q ((scanRefs ns c []).map (summaryOf cd s ns c))).filter
        fun row => decide (row.appID = a) := by
  refine filter_accepted_congr ?_
  have hmem := List.forall₂_iff_get.mp h
  refine List.forall₂_iff_get.mpr ⟨hmem.1, fun i hr ho => ?_⟩
  have hin : (scanRefs ns c []).get ⟨i, hr⟩ ∈ scanRefs ns c [] := List.get_mem _ _
  obtain ⟨hsome, hnone⟩ := hmem.2 i hr ho
  generalize (scanRefs ns c []).get ⟨i, hr⟩ = r at hin hsome hnone ⊢
  cases hor : results.get ⟨i, ho⟩ with
  | none => rw [hnone hor]
  | some row =>
      have hshow := hsome row hor
      by_cases ha : row.appID = a
      · rw [hiso.own_of_shows hs hin hshow (.inl ha)]
      · obtain ⟨row', hrow'⟩ := exists_summaryOf_of_shows hs hshow
        have hid := congrArg InstanceRef.appID (ids_of_summaryOf hrow')
        have hne : row'.appID ≠ a := by
          intro ha'
          have hown := hiso.own_of_shows hs hin hshow (.inr (hid.symm.trans ha'))
          rw [hrow'] at hown
          exact ha (Option.some.inj hown ▸ ha')
        rw [hrow']
        simp [Option.filter_some, ha, hne]

/-- The rows counted for `a`, with any honest cache. -/
theorem ScansAgree.rows_own {ns a : Str} (hiso : ScansAgree cd s ns c a) (hs : Serves s c)
    {results : List (Option ExecutionSummary)}
    (h : List.Forall₂ (Allowed cd s ns c (Shows cd s ns c)) (scanRefs ns c a) results) :
    results = (scanRefs ns c a).map (summaryOf cd s ns c) := by
  have hmem := List.forall₂_iff_get.mp h
  have heq : List.Forall₂ (fun r o => summaryOf cd s ns c r = o) (scanRefs ns c a)
      results := by
    refine List.forall₂_iff_get.mpr ⟨hmem.1, fun i hr ho => ?_⟩
    obtain ⟨k, hk, hp⟩ := parse_of_mem_scanRefs (List.get_mem (scanRefs ns c a) ⟨i, hr⟩)
    obtain ⟨hsome, hnone⟩ := hmem.2 i hr ho
    cases hor : results.get ⟨i, ho⟩ with
    | none => exact hnone hor
    | some row =>
        have hshow := hsome row hor
        obtain ⟨row', hrow'⟩ := exists_summaryOf_of_shows hs hshow
        have ha := hiso.own k hk _ hp row hshow
        have ha' := hiso.own k hk _ hp row' (.inl hrow')
        have hid := congrArg InstanceRef.appID (ids_of_summaryOf hrow')
        exact summaryOf_of_shows hshow (ha.trans (ha'.symm.trans hid))
  have := List.forall₂_map_left_iff.mpr heq
  rw [List.forall₂_eq_eq_eq] at this
  exact this.symm

/-- **Agreeing scans make the filter exact.** -/
theorem filterExact_of_scansAgree (hstore : svc.store = some s) (hres : svc.nsResolver = none)
    (hs : Serves s c) (hmatch : Matching s c) {a : Str} (hiso : ScansAgree cd s svc.ns c a) :
    FilterExact cd toLower svc s c a := by
  refine ⟨?_, ?_⟩
  · intro others q fuel x x' res hothers hx hq hlist row hrow
    obtain ⟨hrows, -⟩ := list_rows
      (K := fun r => ∃ k ∈ c.keysLike (metaPattern svc.ns a), parseRef k = some r)
      (fun tok ks next hread k hk r hp => ⟨k, hq ▸ hmatch _ _ _ _ _ hread k hk, hp⟩)
      (loads_serving (fun _ _ h => h) hothers hs _) hstore (effectiveNS_of_none hres q.appID) hx hlist
    obtain ⟨⟨r, ⟨k, hk, hp⟩, hshow⟩, -⟩ := hrows row hrow
    exact hiso.own k hk r hp row hshow
  · intro others q x y hothers hx hy hq
    obtain ⟨results, hrows, hres₁⟩ := @countedRows_eq cd toLower _ _ _ hstore hres hs _ hothers q _ hx
    obtain ⟨results', hall, hres₂⟩ :=
      @countedRows_eq cd toLower _ _ _ hstore hres hs _ hothers { q with appID := [] } _ hy
    refine ⟨_, _, hrows, hall, ?_, ?_, ?_⟩
    · rw [stats_eq_tally, hrows]
      rfl
    · rw [stats_eq_tally, hall]
      rfl
    rw [hq] at hres₁
    rw [hiso.filter_all hs hres₂, hiso.rows_own hs hres₁]
    -- both sides hold the summaries of the same instances, each once
    have hids : ∀ app, ((rowsOf cd toLower s svc.ns c
        { search := q.search, includeChildren := q.includeChildren }
        (scanRefs svc.ns c app)).map fun row => (⟨row.appID, row.instanceID⟩ : InstanceRef)).Nodup :=
      fun app => nodup_rowsOf (nodup_refsFromKeys _ _).1
    refine (List.perm_ext_iff_of_nodup (List.Nodup.of_map _ (hids a))
      ((List.Nodup.of_map _ (hids [])).filter _)).mpr fun row => ?_
    rw [List.mem_filter, decide_eq_true_eq]
    constructor
    · intro hm
      obtain ⟨r, hr, hsum, hmq⟩ := mem_rowsOf.mp hm
      obtain ⟨k, hk, hp⟩ := parse_of_mem_scanRefs hr
      have ha := hiso.own k hk r hp row (.inl hsum)
      have hra := (congrArg InstanceRef.appID (ids_of_summaryOf hsum)).symm.trans ha
      exact ⟨mem_rowsOf.mpr ⟨r, (hiso.same r row hsum hra).mp hr, hsum, hmq⟩, ha⟩
    · intro hm
      obtain ⟨hm, ha⟩ := hm
      obtain ⟨r, hr, hsum, hmq⟩ := mem_rowsOf.mp hm
      have hra := (congrArg InstanceRef.appID (ids_of_summaryOf hsum)).symm.trans ha
      exact mem_rowsOf.mpr ⟨r, (hiso.same r row hsum hra).mpr hr, hsum, hmq⟩

/-! ## 4. An exact filter needs agreeing scans -/

/-- Other calls that put the cache back into one state before every access. -/
def resetTo (cache : SummaryCache) : Others := fun _ _ => cache

theorem loadEach_resetTo {ns : Str} {cache : SummaryCache} {metas : List (Str × Option Bytes)}
    {refs : List InstanceRef}
    (hm : ∀ r ∈ refs, metas.lookup (r.metaKey ns) = some (c.get (r.metaKey ns)))
    (hf : ∀ r ∈ refs, metas.lookup (r.firstKey ns) = some (c.get (r.firstKey ns))) (x : Shared) :
    (loadEach cd (resetTo cache) s ns metas refs x).1 = refs.map (servedFrom cd s ns c cache) := by
  induction refs generalizing x with
  | nil => rfl
  | cons r refs ih =>
      obtain ⟨hm₀, hm⟩ := List.forall_mem_cons.mp hm
      obtain ⟨hf₀, hf⟩ := List.forall_mem_cons.mp hf
      -- every access finds `cache`, the first one too
      have hone := (@loadSummary_spec cd (resetTo cache) s ns c metas r hm₀ hf₀ x).1
      rw [loadEach, List.map_cons, hone, ih hm hf]
      rfl

theorem loadSummaries_resetTo (hs : Serves s c) (ns : Str) (cache : SummaryCache)
    (refs : List InstanceRef) (x : Shared) :
    ∃ x', loadSummaries cd (resetTo cache) s ns refs x =
      .ok (refs.map (servedFrom cd s ns c cache), x') := by
  obtain ⟨metas, hm, hf, hload⟩ := loadSummaries_of_serves cd (resetTo cache) hs ns refs x
  exact ⟨_, by rw [hload, ← loadEach_resetTo hm hf x]⟩

theorem servedFrom_empty (ns : Str) (max : Nat) (r : InstanceRef) :
    servedFrom cd s ns c (newSummaryCache max) r = summaryOf cd s ns c r := by
  unfold servedFrom
  cases c.get (r.metaKey ns) <;> rfl

/-- Whatever may be shown for an instance is shown with some honest cache, that serves nothing
    else. -/
theorem exists_servedFrom {ns : Str} {r : InstanceRef} {row : ExecutionSummary}
    (h : Shows cd s ns c r row) :
    ∃ cache, Honest cd s ns c cache ∧ servedFrom cd s ns c cache r = some row ∧
      ∀ r', servedFrom cd s ns c cache r' = summaryOf cd s ns c r' ∨
        servedFrom cd s ns c cache r' = some row := by
  rcases h with h | ⟨r', ht, h⟩
  · exact ⟨newSummaryCache 0, honest_empty _ _ _ _ _, (servedFrom_empty ns 0 r).trans h,
      fun r' => .inl (servedFrom_empty ns 0 r')⟩
  · obtain ⟨n, hn⟩ := ht.usable
    obtain ⟨b, hb⟩ := Option.isSome_iff_exists.mp (isSome_of_historyLength hn)
    let e : CachedSummary := ⟨ns, r'.appID, b, (c.get (r'.firstKey ns)).getD [], row⟩
    refine ⟨(newSummaryCache 0).put (r'.cacheKey ns) e, ?_, ?_, fun r'' => ?_⟩
    · exact (serving_empty ns c _ 0).put (fun _ _ h => h) ht.usable hb rfl h
    · unfold servedFrom
      rw [← ht.key, ← ht.record, hb,
        show some b = some e.record from rfl, SummaryCache.get_put_self _ _ e ht.first.symm]
    · rcases servedFrom_cases cd s ns c ((newSummaryCache 0).put (r'.cacheKey ns) e) r'' with
        ⟨e', hmem, -, -, he⟩ | he
      · rcases SummaryCache.mem_put hmem with ⟨-, rfl⟩ | hmem
        · exact .inr he
        · exact absurd hmem List.not_mem_nil
      · exact .inl he

theorem shows_of_servedFrom {ns : Str} {cache : SummaryCache} (hc : Honest cd s ns c cache)
    {r : InstanceRef} {row : ExecutionSummary} (h : servedFrom cd s ns c cache r = some row) :
    Shows cd s ns c r row := by
  rcases servedFrom_cases cd s ns c cache r with ⟨e, hmem, hrec, hfirst, he⟩ | he
  · obtain rfl := Option.some.inj (he.symm.trans h)
    exact hc _ e hmem r rfl hrec hfirst
  · exact .inl (he.symm.trans h)

/-- The query that accepts everything of an app, one key a page. -/
def byOne (a tok : Str) : ListQuery :=
  { appID := a, pageSize := 1, pageToken := tok, includeChildren := true }

theorem matches_byOne (row : ExecutionSummary) (a tok : Str) :
    matchesQuery toLower row (byOne a tok) = true := by
  simp [matchesQuery, byOne]

section Needed

variable (hstore : svc.store = some s) (hres : svc.nsResolver = none) (hs : Serves s c)

include hstore hres hs

/-- A page of one key shows what its instance may show. -/
theorem list_byOne {a tok next k : Str} (hread : s.keys (metaPattern svc.ns a) tok 1 = .ok ([k], next))
    {r : InstanceRef} (hp : parseRef k = some r) {cache : SummaryCache} {row : ExecutionSummary}
    (hrow : servedFrom cd s svc.ns c cache r = some row) (x : Shared) :
    ∃ res x', svc.list cd toLower (resetTo cache) 1 (byOne a tok) x = some (.ok (res, x')) ∧
      row ∈ res.items := by
  obtain ⟨x', hload⟩ := @loadSummaries_resetTo cd s c hs svc.ns cache [r] x
  have hkeys : metaKeys s svc.ns (byOne a tok).appID tok (byOne a tok).effectivePageSize.toNat =
      .ok ([k], next) := hread
  have hrefs : refsFromKeys [k] [] = ([r], [r.dedupKey]) := by simp [refsFromKeys, hp]
  have hlist := @list_oneRound cd toLower _ _ _ _ hstore (byOne a tok) (effectiveNS_of_none hres a) _ _ _
    _ _ _ _ hkeys hrefs hload (fun _ => by simp [ListQuery.stops, ListQuery.filtered, byOne]) 0
  rw [show accepted toLower (byOne a tok) ([r].map (servedFrom cd s svc.ns c cache)) = [row] by
    simp [accepted, hrow, matches_byOne]] at hlist
  refine ⟨_, _, hlist, ?_⟩
  exact (finishPage_perm (q := byOne a tok) (r := ⟨[row], next⟩)
    fun _ => Nat.le_refl 1).1.mem_iff.mpr (List.mem_singleton_self row)

/-- What is counted when every access finds the same cache. -/
theorem countedRows_resetTo (cache : SummaryCache) (app : Str) (x : Shared) :
    svc.countedRows cd toLower (resetTo cache) { appID := app, includeChildren := true } x =
      .ok (accepted toLower { includeChildren := true }
        ((scanRefs svc.ns c app).map (servedFrom cd s svc.ns c cache))) := by
  obtain ⟨next, hkeys⟩ := hs.keys (metaPattern svc.ns app)
  obtain ⟨x', hload⟩ := @loadSummaries_resetTo cd s c hs svc.ns cache (scanRefs svc.ns c app) x
  unfold scanRefs at hload
  unfold Service.countedRows scanRefs
  simp only [hstore, effectiveNS_of_none hres, metaKeys, hkeys, bind, Except.bind, hload, pure,
    Except.pure]

omit hstore hres hs in
theorem mem_counted {refs : List InstanceRef} {f : InstanceRef → Option ExecutionSummary}
    {row : ExecutionSummary} :
    row ∈ accepted toLower { includeChildren := true } (refs.map f) ↔ ∃ r ∈ refs, f r = some row := by
  have hm : matchesQuery toLower row { includeChildren := true } = true := by simp [matchesQuery]
  rw [mem_accepted, List.mem_map]
  exact ⟨fun h => h.1, fun h => ⟨h, hm⟩⟩

/-- **An exact filter needs agreeing scans.** -/
theorem scansAgree_of_filterExact (hcur : Cursor s c) {a : Str}
    (hiso : FilterExact cd toLower svc s c a) : ScansAgree cd s svc.ns c a := by
  have hkeep : ∀ {cache}, Honest cd s svc.ns c cache →
      ∀ (n : Nat) cache', Honest cd s svc.ns c cache' →
        Honest cd s svc.ns c (resetTo cache n cache') := fun h _ _ _ => h
  have hempty : Honest cd s svc.ns c (newSummaryCache 0) := honest_empty _ _ _ _ _
  have hown : ∀ k ∈ c.keysLike (metaPattern svc.ns a), ∀ r, parseRef k = some r →
      ∀ row, Shows cd s svc.ns c r row → row.appID = a := by
    intro k hk r hp row hshow
    -- the page that holds this key alone
    obtain ⟨pages, hpages, hlen, hflat⟩ := hcur (metaPattern svc.ns a) 1 (by decide)
    rw [← hflat] at hk
    obtain ⟨page, hpage, hkp⟩ := List.mem_flatten.mp hk
    obtain ⟨tok, next, hread⟩ := hpages.exists_read page hpage
    have hone : page = [k] := by
      have := hlen page hpage
      match page, hkp with
      | [k'], hkp => rw [List.mem_singleton.mp hkp]
    subst hone
    obtain ⟨cache, hc, hserved, -⟩ := exists_servedFrom hshow
    obtain ⟨res, x', hlist, hrow⟩ := @list_byOne cd toLower _ _ _ hstore hres hs _ _ _ _ hread _ hp _
      _ hserved ⟨cache, 0⟩
    exact hiso.list _ _ _ _ _ _ (hkeep hc) hc rfl hlist row hrow
  -- what is counted with one cache, for `a` and over all apps
  have hcount : ∀ {cache}, Honest cd s svc.ns c cache → ∀ row,
      (∃ r ∈ scanRefs svc.ns c a, servedFrom cd s svc.ns c cache r = some row) ↔
        (∃ r ∈ scanRefs svc.ns c [], servedFrom cd s svc.ns c cache r = some row) ∧
          row.appID = a := by
    intro cache hc row
    obtain ⟨rows, all, hrows, hall, -, -, hperm⟩ := hiso.stats (resetTo cache)
      { appID := a, includeChildren := true } ⟨cache, 0⟩ ⟨cache, 0⟩ (hkeep hc) hc hc rfl
    rw [countedRows_resetTo hstore hres hs] at hrows hall
    rw [← Except.ok.inj hrows, ← Except.ok.inj hall] at hperm
    have hmem := hperm.mem_iff (a := row)
    rw [List.mem_filter, mem_counted, mem_counted, decide_eq_true_eq] at hmem
    exact hmem
  have hsame : ∀ r row, summaryOf cd s svc.ns c r = some row → r.appID = a →
      (r ∈ scanRefs svc.ns c a ↔ r ∈ scanRefs svc.ns c []) := by
    intro r row hsum ha
    have hiff := hcount hempty row
    simp only [servedFrom_empty] at hiff
    have hra := (congrArg InstanceRef.appID (ids_of_summaryOf hsum)).trans ha
    constructor
    · intro hr
      obtain ⟨⟨r', hr', hsum'⟩, -⟩ := hiff.mp ⟨r, hr, hsum⟩
      exact (ids_of_summaryOf hsum').symm.trans (ids_of_summaryOf hsum) ▸ hr'
    · intro hr
      obtain ⟨r', hr', hsum'⟩ := hiff.mpr ⟨⟨r, hr, hsum⟩, hra⟩
      exact (ids_of_summaryOf hsum').symm.trans (ids_of_summaryOf hsum) ▸ hr'
  refine ⟨hown, hsame, fun r hr row hshow ha => ?_⟩
  obtain ⟨cache, hc, hserved, -⟩ := exists_servedFrom hshow
  obtain ⟨r₂, hr₂, hserved₂⟩ := (hcount hc row).mpr ⟨⟨r, hr, hserved⟩, ha⟩
  obtain ⟨k, hk, hp⟩ := parse_of_mem_scanRefs hr₂
  have hshow₂ := shows_of_servedFrom hc hserved₂
  obtain ⟨row₂, hrow₂⟩ := exists_summaryOf_of_shows hs hshow₂
  -- the row is that of `r₂`, an instance of `a`
  have ha₂ := hown k hk r₂ hp row₂ (.inl hrow₂)
  have hid₂ := congrArg InstanceRef.appID (ids_of_summaryOf hrow₂)
  have hsum₂ := summaryOf_of_shows hshow₂ (ha.trans (ha₂.symm.trans hid₂))
  rcases hshow with hsum | ⟨r', ht, hsum⟩
  · exact (congrArg InstanceRef.appID (ids_of_summaryOf hsum)).symm.trans ha
  · obtain rfl : r' = r₂ := (ids_of_summaryOf hsum).symm.trans (ids_of_summaryOf hsum₂)
    -- so `r₂` may be shown with the row of its twin `r`
    obtain ⟨row₁, hrow₁⟩ := exists_summaryOf_of_shows hs (.inr ⟨_, ht, hsum⟩)
    have ha₁ := hown k hk r' hp row₁ (.inr ⟨r, ht.symm, hrow₁⟩)
    exact (congrArg InstanceRef.appID (ids_of_summaryOf hrow₁)).symm.trans ha₁

/-- **The app filter is exact exactly if the scans agree on the app.** -/
theorem filterExact_iff (hmatch : Matching s c) (hcur : Cursor s c) (a : Str) :
    FilterExact cd toLower svc s c a ↔ ScansAgree cd s svc.ns c a :=
  ⟨scansAgree_of_filterExact hstore hres hs hcur,
    filterExact_of_scansAgree hstore hres hs hmatch⟩

end Needed

end Exact

/-! ## 5. Plain app-ids over Dapr's own keys -/

/-- Keys that are metadata keys of proper instances: the instances a scan goes through. -/
theorem mem_scanRefs {ns : Str} (hns : ¬ keyDelimiter <:+: ns) {c : Content} {app : Str}
    (hkeys : ∀ k ∈ c.keysLike (metaPattern ns app), ∃ r, Proper r ∧ k = r.metaKey ns)
    {r : InstanceRef} :
    r ∈ scanRefs ns c app ↔ Proper r ∧ r.metaKey ns ∈ c.keysLike (metaPattern ns app) := by
  have hproper : ProperKeys ns (c.keysLike (metaPattern ns app)) :=
    ProperKeys.of_forall (c.nodup.sublist List.filter_sublist) hkeys
  obtain ⟨refs, hrefs, hnd, hp⟩ := hproper
  have hscan : scanRefs ns c app = refs := by
    rw [scanRefs, hrefs, refsFromKeys_metaKeys hns hp hnd fun _ _ => List.not_mem_nil]
  rw [hscan, hrefs, List.mem_map]
  constructor
  · intro hr
    exact ⟨hp r hr, r, hr, rfl⟩
  · intro hr
    obtain ⟨hproper, r', hr', he⟩ := hr
    have hrr := congrArg parseRef he
    rw [parseRef_metaKey hns (hp r' hr'), parseRef_metaKey hns hproper] at hrr
    exact Option.some.inj hrr ▸ hr'

/-- A store whose workflow keys are Dapr's own, of proper instances. -/
structure OwnKeys (ns : Str) (c : Content) (a : Str) : Prop where
  all : ∀ k ∈ c.keysLike (metaPattern ns []), ∃ r, Proper r ∧ k = r.metaKey ns
  app : ∀ k ∈ c.keysLike (metaPattern ns a), ∃ r, Proper r ∧ k = r.metaKey ns
  keys : ∀ r : InstanceRef, r.metaKey ns ∈ c.keys → Proper r

/-- Proper instances have no twins. -/
theorem OwnKeys.summaryOf {ns : Str} {c : Content} {a : Str} (h : OwnKeys ns c a) {cd : Codec}
    {s : StoreReads} {r : InstanceRef} (hr : Proper r) {row : ExecutionSummary}
    (hshow : Shows cd s ns c r row) : summaryOf cd s ns c r = some row := by
  rcases hshow with hsum | ⟨r', ht, hsum⟩
  · exact hsum
  · obtain ⟨n, hn⟩ := ht.usable
    obtain ⟨b, hb⟩ := Option.isSome_iff_exists.mp (isSome_of_historyLength hn)
    have hr' := h.keys r' (Content.mem_keys_of_get hb)
    obtain ⟨ha, -⟩ := cacheKey_inj hr'.app_nul hr.app_nul ht.key
    exact ht.eq_of_appID ha ▸ hsum

/-- **Plain ids over Dapr's own keys**: the scans agree. -/
theorem scansAgree_of_plain {cd : Codec} {s : StoreReads} {ns : Str} {c : Content} {a : Str}
    (hns : ¬ keyDelimiter <:+: ns) (hplain : Like.Plain ns ∧ Like.Plain a) (ha : a ≠ [])
    (hbar : '|' ∉ a) (h : OwnKeys ns c a) : ScansAgree cd s ns c a := by
  have hpat : metaPattern ns a = instanceMetaPattern ns a := if_neg ha
  have happ : ∀ {r : InstanceRef}, Proper r → r.metaKey ns ∈ c.keysLike (metaPattern ns a) →
      r.appID = a := by
    intro r hr hm
    rw [hpat] at hm
    exact app_eq_of_like hplain hbar hr.app_bar (Content.mem_keysLike.mp hm).2
  have hboth : ∀ {r : InstanceRef}, r.appID = a → r.metaKey ns ∈ c.keys →
      r.metaKey ns ∈ c.keysLike (metaPattern ns a) ∧ r.metaKey ns ∈ c.keysLike (metaPattern ns []) := by
    intro r hra hm
    refine ⟨Content.mem_keysLike.mpr ⟨hm, ?_⟩, Content.mem_keysLike.mpr ⟨hm, ?_⟩⟩
    · rw [hpat, InstanceRef.metaKey, hra]
      exact like_instanceMetaPattern hplain r.id
    · exact like_allInstanceMetaPattern hplain.1 r.appID r.id
  refine ⟨?_, ?_, ?_⟩
  · intro k hk r hp row hshow
    obtain ⟨r₀, hr₀, rfl⟩ := h.app k hk
    rw [parseRef_metaKey hns hr₀] at hp
    obtain rfl := Option.some.inj hp
    have hsum := h.summaryOf hr₀ hshow
    exact (congrArg InstanceRef.appID (ids_of_summaryOf hsum)).trans (happ hr₀ hk)
  · intro r row hsum hra
    rw [mem_scanRefs hns h.app, mem_scanRefs hns h.all]
    refine and_congr_right fun hr => ?_
    constructor
    · exact fun hm => (hboth hra (Content.mem_keysLike.mp hm).1).2
    · exact fun hm => (hboth hra (Content.mem_keysLike.mp hm).1).1
  · intro r hr row hshow hra
    obtain ⟨hproper, -⟩ := (mem_scanRefs hns h.all).mp hr
    have hsum := h.summaryOf hproper hshow
    exact (congrArg InstanceRef.appID (ids_of_summaryOf hsum)).symm.trans hra

theorem matching_pageStore (c : Content) : Matching (pageStore c) c := by
  intro pattern tok pageSize ks next h k hk
  simp only [pageStore] at h
  split at h
  · obtain ⟨rfl, -⟩ := Prod.mk.inj (Except.ok.inj h)
    exact hk
  · obtain ⟨rfl, -⟩ := Prod.mk.inj (Except.ok.inj h)
    exact Paging.mem_of_mem_cut hk

theorem ownKeys_orders (a : Str) : OwnKeys "d".toList orders a := by
  have hlike : ∀ {pattern}, ∀ k ∈ orders.keysLike pattern, ∃ r, Proper r ∧ k = r.metaKey "d".toList := by
    intro pattern k hk
    obtain ⟨r, hr, he⟩ := ref_of_mem_orders (Content.mem_keysLike.mp hk).1
    exact ⟨r, proper_of_mem_orderRefs r hr, he⟩
  refine ⟨hlike, hlike, fun r hr => ?_⟩
  obtain ⟨r', hr', he⟩ := ref_of_mem_orders hr
  have hp := proper_of_mem_orderRefs r' hr'
  have hpre : instancePrefix "d".toList r.appID r.id <+:
      instancePrefix "d".toList r'.appID r'.id ++ suffixMetadata := ⟨suffixMetadata, he⟩
  obtain ⟨-, ha, hi⟩ := instance_eq_of_prefix (by decide) hp.app_bar hp.id_bar (by decide) hpre
  obtain rfl : r = r' := by
    cases r
    cases ha
    cases hi
    rfl
  exact hp

theorem filterExact_iff_shop :
    ScansAgree tinyCodec (pageStore orders) "d".toList orders "shop".toList ∧
      FilterExact tinyCodec id ordersService (pageStore orders) orders "shop".toList := by
  have hagree := @scansAgree_of_plain tinyCodec (pageStore orders) "d".toList orders "shop".toList
    (by decide) (by decide) (by decide) (by decide) (ownKeys_orders _)
  exact ⟨hagree, (filterExact_iff rfl rfl (serves_pageStore orders) (matching_pageStore orders)
    (cursor_pageStore orders) _).mpr hagree⟩

/-- The instance `1` of the app `axb`. -/
def axb1 : InstanceRef := ⟨"axb".toList, "1".toList⟩

/-- **The filter `a_b` lets the app `axb` through**: the underscore matches any character. -/
theorem filter_lets_through :
    (∃ res x' row, (oneKeyService "d".toList axb1 lengthOne).list tinyCodec id
        (resetTo (newSummaryCache 0)) 1 (byOne "a_b".toList []) ⟨newSummaryCache 0, 0⟩ =
          some (.ok (res, x')) ∧ row ∈ res.items ∧ row.appID = "axb".toList) ∧
      ¬ FilterExact tinyCodec id (oneKeyService "d".toList axb1 lengthOne)
        (storeOf (oneKey "d".toList axb1 lengthOne)) (oneKey "d".toList axb1 lengthOne) "a_b".toList := by
  obtain ⟨row, hrow⟩ := @exists_summaryOf_oneKey tinyCodec "d".toList axb1 lengthOne 1 (by decide)
  have happ : row.appID = "axb".toList := congrArg InstanceRef.appID (ids_of_summaryOf hrow)
  have hkeys : (oneKey "d".toList axb1 lengthOne).keysLike (metaPattern "d".toList "a_b".toList) =
      [axb1.metaKey "d".toList] := by decide
  have hread : (storeOf (oneKey "d".toList axb1 lengthOne)).keys (metaPattern "d".toList "a_b".toList) [] 1
      = .ok ([axb1.metaKey "d".toList], []) := by
    rw [← hkeys]
    rfl
  obtain ⟨res, x', hlist, hmem⟩ := @list_byOne tinyCodec id (oneKeyService "d".toList axb1 lengthOne) _ _
    rfl rfl (serves_storeOf _) "a_b".toList [] [] _ hread axb1 (by decide) (newSummaryCache 0) row
    ((servedFrom_empty _ _ _).trans hrow) ⟨newSummaryCache 0, 0⟩
  refine ⟨⟨res, x', row, hlist, hmem, happ⟩, fun hexact => ?_⟩
  have h := hexact.list _ _ _ _ _ _ (fun _ _ _ => honest_empty _ _ _ _ _)
    (honest_empty _ _ _ _ _) rfl hlist row hmem
  rw [happ] at h
  exact absurd h (by decide)

end DevDashboard.Workflow
