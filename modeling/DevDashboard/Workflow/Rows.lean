/-
  File:      DevDashboard/Workflow/Rows.lean
  Subject:   WHERE THE ROWS OF ONE `List` CALL COME FROM.

  Nothing is asked of the keys here: some may not be parsed, some may be parsed to the same
  instance, some to one that has no metadata record.

  * `list_rows` -- a row comes from a key of the scan, and the query accepts it;
  * `loadSummaries_serving` -- the row of an instance is its own, or that of a twin the cache cannot
    tell from it;
  * `list_genuine` -- on an unchanging store every row is the summary that the store gives for
    some instance, also when the cache confuses two of them.
-/
import DevDashboard.Workflow.Walk

namespace DevDashboard.Workflow

open Lib StateStore

/-! ## 1. Rows and the keys of the scan -/

theorem mem_refsFromKeys {r : InstanceRef} :
    ∀ {ks seen : List Str}, r ∈ (refsFromKeys ks seen).1 → ∃ k ∈ ks, parseRef k = some r := by
  intro ks
  induction ks with
  | nil =>
      intro seen h
      cases h
  | cons k ks ih =>
      intro seen h
      rw [refsFromKeys] at h
      cases hk : parseRef k with
      | none =>
          rw [hk] at h
          obtain ⟨k', hm, hp⟩ := ih h
          exact ⟨k', List.mem_cons_of_mem k hm, hp⟩
      | some r' =>
          simp only [hk] at h
          split at h
          · obtain ⟨k', hm, hp⟩ := ih h
            exact ⟨k', List.mem_cons_of_mem k hm, hp⟩
          · rcases List.mem_cons.mp h with rfl | h
            · exact ⟨k, List.mem_cons_self, hk⟩
            · obtain ⟨k', hm, hp⟩ := ih h
              exact ⟨k', List.mem_cons_of_mem k hm, hp⟩

theorem mem_accepted {toLower : Str → Str} {q : ListQuery}
    {results : List (Option ExecutionSummary)} {row : ExecutionSummary} :
    row ∈ accepted toLower q results ↔ some row ∈ results ∧ matchesQuery toLower row q = true := by
  simp [accepted, List.mem_filter, List.mem_filterMap]

/-- The end of `List` adds no row. -/
theorem mem_of_mem_finishPage {q : ListQuery} {r : ListResult} {row : ExecutionSummary}
    (h : row ∈ (finishPage q r).items) : row ∈ r.items := by
  unfold finishPage at h
  simp only at h
  split at h
  · exact (sortByCreated_perm r.items).mem_iff.mp (List.mem_of_mem_take h)
  · exact (sortByCreated_perm r.items).mem_iff.mp h

section Rows

variable {cd : Codec} {toLower : Str → Str} {others : Others} {s : StoreReads} {ns : Str}
  {q : ListQuery} {Inv : SummaryCache → Prop} {K : InstanceRef → Prop}
  {Row : ExecutionSummary → Prop}

/-- What `list_rows` needs of one round: of the known instances it loads the rows wanted. -/
def Loads (cd : Codec) (others : Others) (s : StoreReads) (ns : Str) (Inv : SummaryCache → Prop)
    (K : InstanceRef → Prop) (Row : ExecutionSummary → Prop) : Prop :=
  ∀ (refs : List InstanceRef) (x : Shared) (results : List (Option ExecutionSummary)) (x' : Shared),
    (∀ r ∈ refs, K r) → Inv x.cache → loadSummaries cd others s ns refs x = .ok (results, x') →
      Inv x'.cache ∧ ∀ row, some row ∈ results → Row row

variable
  (hkeys : ∀ tok ks next, scan s ns q tok = .ok (ks, next) →
    ∀ k ∈ ks, ∀ r, parseRef k = some r → K r)
  (hload : Loads cd others s ns Inv K Row)

include hkeys hload

theorem listLoop_rows {fuel : Nat} :
    ∀ {tok : Str} {scanned : Int} {seen : List Str} {items : List ExecutionSummary} {x x' : Shared}
      {res : ListResult}, (∀ row ∈ items, Row row ∧ matchesQuery toLower row q = true) →
      Inv x.cache →
      listLoop cd others s ns toLower q fuel tok scanned seen items x = some (.ok (res, x')) →
      (∀ row ∈ res.items, Row row ∧ matchesQuery toLower row q = true) ∧ Inv x'.cache := by
  induction fuel with
  | zero =>
      intro tok scanned seen items x x' res _ _ h
      cases h
  | succ fuel ih =>
      intro tok scanned seen items x x' res hitems hx h
      rw [listLoop] at h
      cases hread : metaKeys s ns q.appID tok q.effectivePageSize.toNat with
      | error e => simp [hread] at h
      | ok page =>
          obtain ⟨ks, next⟩ := page
          simp only [hread] at h
          cases hl : loadSummaries cd others s ns (refsFromKeys ks seen).1 x with
          | error e => simp [hl] at h
          | ok loaded =>
              obtain ⟨results, x₁⟩ := loaded
              simp only [hl] at h
              have hknown : ∀ r ∈ (refsFromKeys ks seen).1, K r := by
                intro r hr
                obtain ⟨k, hk, hp⟩ := mem_refsFromKeys hr
                exact hkeys tok ks next hread k hk r hp
              obtain ⟨hx₁, hrows⟩ := hload _ _ _ _ hknown hx hl
              have hitems' : ∀ row ∈ items ++ accepted toLower q results,
                  Row row ∧ matchesQuery toLower row q = true := by
                intro row hrow
                rcases List.mem_append.mp hrow with hrow | hrow
                · exact hitems row hrow
                · obtain ⟨hr, hm⟩ := mem_accepted.mp hrow
                  exact ⟨hrows row hr, hm⟩
              split at h
              · obtain ⟨rfl, rfl⟩ := Prod.mk.inj (Except.ok.inj (Option.some.inj h))
                exact ⟨hitems', hx₁⟩
              · exact ih hitems' hx₁ h

/-- **The rows of a call**: each is loaded from a key of the scan, and the query accepts it. -/
theorem list_rows {svc : Service} (hstore : svc.store = some s)
    (hns : svc.effectiveNS q.appID = ns) {fuel : Nat} {x x' : Shared} {res : ListResult}
    (hx : Inv x.cache) (h : svc.list cd toLower others fuel q x = some (.ok (res, x'))) :
    (∀ row ∈ res.items, Row row ∧ matchesQuery toLower row q = true) ∧ Inv x'.cache := by
  subst hns
  unfold Service.list at h
  rw [hstore] at h
  simp only at h
  split at h
  · rename_i r x₁ hloop
    obtain ⟨rfl, rfl⟩ := Prod.mk.inj (Except.ok.inj (Option.some.inj h))
    obtain ⟨hrows, hx'⟩ := listLoop_rows hkeys hload (by simp) hx hloop
    exact ⟨fun row hrow => hrows row (mem_of_mem_finishPage hrow), hx'⟩
  · cases h
  · cases h

end Rows

/-- The query accepts every row. -/
theorem matches_of_list {cd : Codec} {toLower : Str → Str} {others : Others} {svc : Service}
    {s : StoreReads} (hstore : svc.store = some s) {q : ListQuery} {fuel : Nat} {x x' : Shared}
    {res : ListResult} (h : svc.list cd toLower others fuel q x = some (.ok (res, x'))) :
    ∀ row ∈ res.items, matchesQuery toLower row q = true := by
  have hload : Loads cd others s (svc.effectiveNS q.appID) (fun _ => True) (fun _ => True)
      (fun _ => True) := fun _ _ _ _ _ _ _ => ⟨trivial, fun _ _ => trivial⟩
  obtain ⟨hrows, -⟩ := list_rows (fun _ _ _ _ _ _ _ _ => trivial) hload hstore rfl trivial h
  exact fun row hrow => (hrows row hrow).2

/-! ## 2. What a cache may serve on an unchanging store -/

/-- The cache serves, for an instance with the bytes the store holds, only summaries that `P`
    allows for it. -/
def Serving (ns : Str) (c : Content) (P : InstanceRef → ExecutionSummary → Prop)
    (cache : SummaryCache) : Prop :=
  ∀ k e, (k, e) ∈ cache.entries → ∀ r : InstanceRef, k = r.cacheKey ns →
    c.get (r.metaKey ns) = some e.record → (c.get (r.firstKey ns)).getD [] = e.first →
    P r e.summary

/-- Two instances the cache cannot tell apart: one cache key, and the same bytes. -/
structure Twins (cd : Codec) (ns : Str) (c : Content) (r r' : InstanceRef) : Prop where
  key : r.cacheKey ns = r'.cacheKey ns
  usable : ∃ n, historyLength cd (c.get (r.metaKey ns)) = some n
  record : c.get (r.metaKey ns) = c.get (r'.metaKey ns)
  first : (c.get (r.firstKey ns)).getD [] = (c.get (r'.firstKey ns)).getD []

/-- A row that may be shown for an instance: its own, or that of a twin. -/
def Shows (cd : Codec) (s : StoreReads) (ns : Str) (c : Content) (r : InstanceRef)
    (row : ExecutionSummary) : Prop :=
  summaryOf cd s ns c r = some row ∨ ∃ r', Twins cd ns c r' r ∧ summaryOf cd s ns c r' = some row

/-- What a call may get for an instance: a row that `P` allows, or nothing if it does not load. -/
def Allowed (cd : Codec) (s : StoreReads) (ns : Str) (c : Content)
    (P : InstanceRef → ExecutionSummary → Prop) (r : InstanceRef) (o : Option ExecutionSummary) :
    Prop :=
  (∀ row, o = some row → P r row) ∧ (o = none → summaryOf cd s ns c r = none)

theorem serving_empty (ns : Str) (c : Content) (P : InstanceRef → ExecutionSummary → Prop)
    (max : Nat) : Serving ns c P (newSummaryCache max) := by
  intro k e hm
  exact absurd hm List.not_mem_nil

theorem Twins.symm {cd : Codec} {ns : Str} {c : Content} {r r' : InstanceRef}
    (h : Twins cd ns c r r') : Twins cd ns c r' r :=
  ⟨h.key.symm, h.record ▸ h.usable, h.record.symm, h.first.symm⟩

section Serving

variable {cd : Codec} {toLower : Str → Str} {others : Others} {s : StoreReads} {ns : Str}
  {c : Content} {P : InstanceRef → ExecutionSummary → Prop}
  (hP : ∀ r row, Shows cd s ns c r row → P r row)

include hP

/-- Storing the summary an instance was loaded with from its record. -/
theorem Serving.put {cache : SummaryCache} (h : Serving ns c P cache) {r : InstanceRef}
    {e : CachedSummary} (hu : ∃ n, historyLength cd (c.get (r.metaKey ns)) = some n)
    (hr : c.get (r.metaKey ns) = some e.record) (hf : (c.get (r.firstKey ns)).getD [] = e.first)
    (he : summaryOf cd s ns c r = some e.summary) :
    Serving ns c P (cache.put (r.cacheKey ns) e) := by
  intro k x hm r' hk hrec hfirst
  rcases SummaryCache.mem_put hm with ⟨rfl, rfl⟩ | hm
  · exact hP r' _ (.inr ⟨r, ⟨hk, hu, hr.trans hrec.symm, hf.trans hfirst.symm⟩, he⟩)
  · exact h k x hm r' hk hrec hfirst

omit hP in
/-- A summary that came from the record: the record is usable. -/
theorem usable_of_loadWithMeta {r : InstanceRef} {record : Option Bytes} {ex : Execution}
    (h : loadWithMeta cd s ns r.appID r.id record = .ok (ex, true)) :
    ∃ n, historyLength cd record = some n := by
  unfold loadWithMeta at h
  cases hl : historyLength cd record with
  | some n => exact ⟨n, rfl⟩
  | none =>
      rw [hl] at h
      obtain ⟨ex', -, he⟩ := exists_of_bind_ok h
      cases he

variable (hothers : ∀ n cache, Serving ns c P cache → Serving ns c P (others n cache))

include hothers

/-- **One reference**: an instance that loads gives a row that `P` allows for it. -/
theorem loadSummary_serving {metas : List (Str × Option Bytes)} {r : InstanceRef}
    (hm : metas.lookup (r.metaKey ns) = some (c.get (r.metaKey ns)))
    (hf : metas.lookup (r.firstKey ns) = some (c.get (r.firstKey ns))) {x : Shared}
    (hx : Serving ns c P x.cache) :
    Allowed cd s ns c P r (loadSummary cd others s ns metas r x).1 ∧
      Serving ns c P (loadSummary cd others s ns metas r x).2.cache := by
  have hx₁ : Serving ns c P (x.arrive others).cache := hothers _ _ hx
  obtain ⟨hserved, hcache⟩ := @loadSummary_spec cd others s ns c metas r hm hf x
  rw [hserved]
  refine ⟨?_, ?_⟩
  · rcases servedFrom_cases cd s ns c (x.arrive others).cache r with
      ⟨e, hmem, hrec, hfirst, he⟩ | he
    · refine ⟨fun row hrow => ?_, fun h => by rw [he] at h; cases h⟩
      obtain rfl := Option.some.inj (he.symm.trans hrow)
      exact hx₁ _ e hmem r rfl hrec hfirst
    · exact ⟨fun row hrow => hP r row (.inl (he.symm.trans hrow)), fun h => he.symm.trans h⟩
  · rcases hcache with hcache | ⟨ex, hload, hcache⟩
    · rw [hcache]
      exact hx₁
    · obtain ⟨n, hn⟩ := usable_of_loadWithMeta hload
      obtain ⟨b, hb⟩ := Option.isSome_iff_exists.mp (isSome_of_historyLength hn)
      rw [hcache]
      refine (hothers _ _ hx₁).put hP ⟨n, hn⟩ ?_ rfl (by simp [summaryOf, hload])
      rw [hb]
      rfl

theorem loadEach_serving {metas : List (Str × Option Bytes)} {refs : List InstanceRef}
    (hm : ∀ r ∈ refs, metas.lookup (r.metaKey ns) = some (c.get (r.metaKey ns)))
    (hf : ∀ r ∈ refs, metas.lookup (r.firstKey ns) = some (c.get (r.firstKey ns))) {x : Shared}
    (hx : Serving ns c P x.cache) :
    List.Forall₂ (Allowed cd s ns c P) refs (loadEach cd others s ns metas refs x).1 ∧
      Serving ns c P (loadEach cd others s ns metas refs x).2.cache := by
  induction refs generalizing x with
  | nil => exact ⟨.nil, hx⟩
  | cons r refs ih =>
      obtain ⟨hm₀, hm⟩ := List.forall_mem_cons.mp hm
      obtain ⟨hf₀, hf⟩ := List.forall_mem_cons.mp hf
      obtain ⟨h₁, hx₁⟩ := loadSummary_serving hP hothers hm₀ hf₀ hx
      obtain ⟨h₂, hx₂⟩ := ih hm hf hx₁
      exact ⟨.cons h₁ h₂, hx₂⟩

/-- **The summaries of a call**, one for each reference. -/
theorem loadSummaries_serving (hs : Serves s c) {refs : List InstanceRef} {x : Shared}
    (hx : Serving ns c P x.cache) :
    ∃ results x', loadSummaries cd others s ns refs x = .ok (results, x') ∧
      List.Forall₂ (Allowed cd s ns c P) refs results ∧
      Serving ns c P x'.cache := by
  obtain ⟨metas, hm, hf, hload⟩ := loadSummaries_of_serves cd others hs ns refs x
  obtain ⟨hrows, hx'⟩ := loadEach_serving hP hothers hm hf hx
  exact ⟨_, _, hload, hrows, hx'⟩

theorem loads_serving (hs : Serves s c) (K : InstanceRef → Prop) :
    Loads cd others s ns (Serving ns c P) K (fun row => ∃ r, K r ∧ P r row) := by
  intro refs x results x' hk hx h
  obtain ⟨results', y, hload, hrows, hy⟩ := loadSummaries_serving hP hothers hs hx
  rw [h] at hload
  obtain ⟨rfl, rfl⟩ := Prod.mk.inj (Except.ok.inj hload)
  refine ⟨hy, fun row hrow => ?_⟩
  obtain ⟨i, hi, he⟩ := List.mem_iff_getElem.mp hrow
  have hlen := hrows.length_eq
  exact ⟨refs[i], hk _ (List.getElem_mem _), (hrows.get (hlen ▸ hi) hi).1 row he⟩

end Serving

/-! ## 3. Rows and the instances of an unchanging store -/

/-- **A genuine cache**: for an instance with the bytes the store holds it serves the summary of an
    instance of the store, that one or another. -/
def Genuine (cd : Codec) (s : StoreReads) (ns : Str) (c : Content) (cache : SummaryCache) : Prop :=
  Serving ns c (fun _ row => ∃ r, summaryOf cd s ns c r = some row) cache

theorem genuine_empty (cd : Codec) (s : StoreReads) (ns : Str) (c : Content) (max : Nat) :
    Genuine cd s ns c (newSummaryCache max) := serving_empty ns c _ max

theorem genuine_of_shows {cd : Codec} {s : StoreReads} {ns : Str} {c : Content} (r : InstanceRef)
    (row : ExecutionSummary) (h : Shows cd s ns c r row) :
    ∃ r, summaryOf cd s ns c r = some row := by
  rcases h with h | ⟨r', -, h⟩
  · exact ⟨r, h⟩
  · exact ⟨r', h⟩

/-- **Every row is the summary of an instance of the store.** -/
theorem list_genuine {cd : Codec} {toLower : Str → Str} {others : Others} {svc : Service}
    {s : StoreReads} {c : Content} (hstore : svc.store = some s) (hres : svc.nsResolver = none)
    (hs : Serves s c)
    (hothers : ∀ n cache, Genuine cd s svc.ns c cache → Genuine cd s svc.ns c (others n cache))
    {q : ListQuery} {fuel : Nat} {x x' : Shared} {res : ListResult}
    (hx : Genuine cd s svc.ns c x.cache)
    (h : svc.list cd toLower others fuel q x = some (.ok (res, x'))) {row : ExecutionSummary}
    (hrow : row ∈ res.items) : summaryOf cd s svc.ns c ⟨row.appID, row.instanceID⟩ = some row := by
  obtain ⟨hrows, -⟩ := list_rows (fun _ _ _ _ _ _ _ _ => trivial)
    (loads_serving genuine_of_shows hothers hs fun _ => True) hstore
    (effectiveNS_of_none hres q.appID) hx h
  obtain ⟨⟨-, -, r, hr⟩, -⟩ := hrows row hrow
  rw [ids_of_summaryOf hr]
  exact hr

end DevDashboard.Workflow
