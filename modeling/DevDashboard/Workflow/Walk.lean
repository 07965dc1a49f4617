/-
  File:      DevDashboard/Workflow/Walk.lean
  Subject:   A WALK OVER THE PAGES OF `List` GETS EVERY INSTANCE ONCE, AND `Stats` COUNTS THE SAME.

  The store does not change, and the cache holds what `Coherent` allows, before the walk and
  whatever other calls do to it meanwhile.

  * `refsFromKeys_metaKeys` -- proper instances are parsed back, and the dedup drops none;
  * `loadSummary_spec` -- what one reference gives, and what it leaves in the cache;
  * `loadSummaries_eq` -- with a coherent cache the summaries are those of the store;
  * `listLoop_consumes` -- one call takes some whole pages of the scan;
  * `listAll_complete` -- the whole walk.
-/
import DevDashboard.Workflow.List

namespace DevDashboard.Workflow

open Lib StateStore
open Lib.Paging (Pages Consumes)

/-! ## 1. Instances and their summaries -/

/-- An instance whose metadata key can be parsed back: its ids are there, and hold none of the
    separators of keys, references and cache keys. -/
structure Proper (r : InstanceRef) : Prop where
  app_ne : r.appID ≠ []
  app_bar : '|' ∉ r.appID
  app_slash : '/' ∉ r.appID
  app_nul : nul ∉ r.appID
  id_ne : r.id ≠ []
  id_bar : '|' ∉ r.id

/-- The summary an unchanging store gives for an instance (`none`: it fails to load). -/
def summaryOf (cd : Codec) (s : StoreReads) (ns : Str) (c : Content) (r : InstanceRef) :
    Option ExecutionSummary :=
  match loadWithMeta cd s ns r.appID r.id (c.get (r.metaKey ns)) with
  | .ok (ex, _) => some ex.summary
  | .error _ => none

/-- The rows of a query among some instances. -/
def rowsOf (cd : Codec) (toLower : Str → Str) (s : StoreReads) (ns : Str) (c : Content)
    (q : ListQuery) (refs : List InstanceRef) : List ExecutionSummary :=
  accepted toLower q (refs.map (summaryOf cd s ns c))

/-- **A coherent cache**: an entry whose bytes are those the store holds for an instance has the
    summary of that instance. -/
def Coherent (cd : Codec) (s : StoreReads) (ns : Str) (c : Content) (cache : SummaryCache) : Prop :=
  ∀ k e, (k, e) ∈ cache.entries → ∀ r : InstanceRef, nul ∉ r.appID → k = r.cacheKey ns →
    c.get (r.metaKey ns) = some e.record → (c.get (r.firstKey ns)).getD [] = e.first →
    summaryOf cd s ns c r = some e.summary

theorem parseRef_metaKey {ns : Str} (hns : ¬ keyDelimiter <:+: ns) {r : InstanceRef}
    (hr : Proper r) : parseRef (r.metaKey ns) = some r := by
  unfold parseRef InstanceRef.metaKey
  rw [parseAppID_metaKey hns hr.app_bar hr.id_bar, if_neg hr.app_ne,
    parseInstanceID_metaKey hns hr.app_bar hr.id_bar, if_neg hr.id_ne]

theorem dedupKey_inj {r r' : InstanceRef} (hr : Proper r) (hr' : Proper r')
    (h : r.dedupKey = r'.dedupKey) : r = r' := by
  simp only [InstanceRef.dedupKey, List.append_assoc, List.cons_append, List.nil_append] at h
  obtain ⟨ha, hi⟩ := Str.append_cons_inj hr.app_slash hr'.app_slash h
  cases r
  cases r'
  simp_all

/-- **Proper instances are parsed back, each of them**: the dedup of `refsFromKeys` drops none that
    is new. -/
theorem refsFromKeys_metaKeys {ns : Str} (hns : ¬ keyDelimiter <:+: ns) {refs : List InstanceRef}
    (hp : ∀ r ∈ refs, Proper r) (hnd : refs.Nodup) {seen : List Str}
    (hseen : ∀ r ∈ refs, r.dedupKey ∉ seen) :
    refsFromKeys (refs.map (·.metaKey ns)) seen =
      (refs, (refs.map (·.dedupKey)).reverse ++ seen) := by
  induction refs generalizing seen with
  | nil => rfl
  | cons r refs ih =>
      obtain ⟨hr, hnd⟩ := List.nodup_cons.mp hnd
      obtain ⟨hpr, hp⟩ := List.forall_mem_cons.mp hp
      obtain ⟨hsr, hseen⟩ := List.forall_mem_cons.mp hseen
      have hseen' : ∀ r' ∈ refs, r'.dedupKey ∉ r.dedupKey :: seen := by
        intro r' hr' hm
        rcases List.mem_cons.mp hm with he | hm
        · exact hr (dedupKey_inj (hp r' hr') hpr he ▸ hr')
        · exact hseen r' hr' hm
      rw [List.map_cons, refsFromKeys, parseRef_metaKey hns hpr]
      simp only [if_neg hsr, ih hp hnd hseen']
      simp

/-! ## 2. A coherent cache stays coherent and does not show -/

section Load

variable {cd : Codec} {others : Others} {s : StoreReads} {ns : Str} {c : Content}

theorem Coherent.prune {cache : SummaryCache} (h : Coherent cd s ns c cache) (ns' app : Str)
    (keep : List Str) : Coherent cd s ns c (cache.prune ns' app keep) :=
  fun k e hm => h k e (SummaryCache.mem_prune hm)

/-- Storing an instance's own summary. -/
theorem Coherent.put {cache : SummaryCache} (h : Coherent cd s ns c cache) {r : InstanceRef}
    (hr : nul ∉ r.appID) {e : CachedSummary} (he : summaryOf cd s ns c r = some e.summary) :
    Coherent cd s ns c (cache.put (r.cacheKey ns) e) := by
  intro k x hm r' hr' hk hrec hfirst
  rcases SummaryCache.mem_put hm with ⟨rfl, rfl⟩ | hm
  · obtain ⟨ha, hi⟩ := cacheKey_inj hr hr' hk
    have hrr : r = r' := by
      cases r
      cases r'
      simp_all
    exact hrr ▸ he
  · exact h k x hm r' hr' hk hrec hfirst

/-- What one reference gives when its access finds this cache. -/
def servedFrom (cd : Codec) (s : StoreReads) (ns : Str) (c : Content) (cache : SummaryCache)
    (r : InstanceRef) : Option ExecutionSummary :=
  match cache.get (r.cacheKey ns) (c.get (r.metaKey ns)) (c.get (r.firstKey ns)) with
  | some sum => some sum
  | none => summaryOf cd s ns c r

/-- A hit is an entry with the bytes of the reference; on a miss the instance is loaded. -/
theorem servedFrom_cases (cd : Codec) (s : StoreReads) (ns : Str) (c : Content)
    (cache : SummaryCache) (r : InstanceRef) :
    (∃ e, (r.cacheKey ns, e) ∈ cache.entries ∧ c.get (r.metaKey ns) = some e.record ∧
      (c.get (r.firstKey ns)).getD [] = e.first ∧
      servedFrom cd s ns c cache r = some e.summary) ∨
      servedFrom cd s ns c cache r = summaryOf cd s ns c r := by
  unfold servedFrom
  cases hget : cache.get (r.cacheKey ns) (c.get (r.metaKey ns)) (c.get (r.firstKey ns)) with
  | some sum =>
      obtain ⟨e, hmem, hrec, hfirst, rfl⟩ := SummaryCache.mem_of_get hget
      exact .inl ⟨e, hmem, hrec, hfirst, rfl⟩
  | none => exact .inr rfl

/-- **One reference**: what it gives, and what it leaves in the cache. Only a summary that came from
    the record is stored. -/
theorem loadSummary_spec {metas : List (Str × Option Bytes)} {r : InstanceRef}
    (hm : metas.lookup (r.metaKey ns) = some (c.get (r.metaKey ns)))
    (hf : metas.lookup (r.firstKey ns) = some (c.get (r.firstKey ns))) (x : Shared) :
    (loadSummary cd others s ns metas r x).1 = servedFrom cd s ns c (x.arrive others).cache r ∧
      ((loadSummary cd others s ns metas r x).2.cache = (x.arrive others).cache ∨
        ∃ ex, loadWithMeta cd s ns r.appID r.id (c.get (r.metaKey ns)) = .ok (ex, true) ∧
          (loadSummary cd others s ns metas r x).2.cache =
            ((x.arrive others).arrive others).cache.put (r.cacheKey ns)
              ⟨ns, r.appID, (c.get (r.metaKey ns)).getD [], (c.get (r.firstKey ns)).getD [],
                ex.summary⟩) := by
  unfold loadSummary servedFrom
  simp only [hm, hf, Option.join_some]
  cases hget : (x.arrive others).cache.get (r.cacheKey ns) (c.get (r.metaKey ns))
      (c.get (r.firstKey ns)) with
  | some sum => exact ⟨rfl, .inl rfl⟩
  | none =>
      cases hload : loadWithMeta cd s ns r.appID r.id (c.get (r.metaKey ns)) with
      | error e => exact ⟨by simp [summaryOf, hload], .inl rfl⟩
      | ok ex =>
          obtain ⟨ex, fromMeta⟩ := ex
          have hsum : summaryOf cd s ns c r = some ex.summary := by simp [summaryOf, hload]
          cases fromMeta with
          | false => exact ⟨hsum.symm, .inl rfl⟩
          | true => exact ⟨hsum.symm, .inr ⟨ex, rfl, rfl⟩⟩

/-- The bulk read of `loadSummaries` has the records and the first events of all its references. -/
theorem loadSummaries_of_serves (cd : Codec) (others : Others) (hs : Serves s c) (ns : Str)
    (refs : List InstanceRef) (x : Shared) :
    ∃ metas : List (Str × Option Bytes),
      (∀ r ∈ refs, metas.lookup (r.metaKey ns) = some (c.get (r.metaKey ns))) ∧
      (∀ r ∈ refs, metas.lookup (r.firstKey ns) = some (c.get (r.firstKey ns))) ∧
      loadSummaries cd others s ns refs x = .ok (loadEach cd others s ns metas refs x) := by
  refine ⟨c.bulkGet (refs.map (·.metaKey ns) ++ refs.map (·.firstKey ns)),
    fun r hr => lookup_bulkGet (List.mem_append_left _ (List.mem_map_of_mem hr)),
    fun r hr => lookup_bulkGet (List.mem_append_right _ (List.mem_map_of_mem hr)), ?_⟩
  unfold loadSummaries
  by_cases hne : refs = []
  · subst hne
    rfl
  · rw [if_neg hne, hs.bulkGet]
    rfl

variable (hothers : ∀ n cache, Coherent cd s ns c cache → Coherent cd s ns c (others n cache))

include hothers

/-- **A coherent cache does not show**: a hit and a load give the same summary. -/
theorem loadSummary_eq {metas : List (Str × Option Bytes)} {r : InstanceRef} (hr : nul ∉ r.appID)
    (hm : metas.lookup (r.metaKey ns) = some (c.get (r.metaKey ns)))
    (hf : metas.lookup (r.firstKey ns) = some (c.get (r.firstKey ns))) {x : Shared}
    (hx : Coherent cd s ns c x.cache) :
    (loadSummary cd others s ns metas r x).1 = summaryOf cd s ns c r ∧
      Coherent cd s ns c (loadSummary cd others s ns metas r x).2.cache := by
  have hx₁ : Coherent cd s ns c (x.arrive others).cache := hothers _ _ hx
  obtain ⟨hserved, hcache⟩ := @loadSummary_spec cd others s ns c metas r hm hf x
  refine ⟨hserved.trans ?_, ?_⟩
  · rcases servedFrom_cases cd s ns c (x.arrive others).cache r with
      ⟨e, hmem, hrec, hfirst, he⟩ | he
    · exact he.trans (hx₁ _ e hmem r hr rfl hrec hfirst).symm
    · exact he
  · rcases hcache with hcache | ⟨ex, hload, hcache⟩
    · rw [hcache]
      exact hx₁
    · rw [hcache]
      exact (hothers _ _ hx₁).put hr (by simp [summaryOf, hload])

theorem loadEach_eq {metas : List (Str × Option Bytes)} {refs : List InstanceRef}
    (hr : ∀ r ∈ refs, nul ∉ r.appID)
    (hm : ∀ r ∈ refs, metas.lookup (r.metaKey ns) = some (c.get (r.metaKey ns)))
    (hf : ∀ r ∈ refs, metas.lookup (r.firstKey ns) = some (c.get (r.firstKey ns))) {x : Shared}
    (hx : Coherent cd s ns c x.cache) :
    (loadEach cd others s ns metas refs x).1 = refs.map (summaryOf cd s ns c) ∧
      Coherent cd s ns c (loadEach cd others s ns metas refs x).2.cache := by
  induction refs generalizing x with
  | nil => exact ⟨rfl, hx⟩
  | cons r refs ih =>
      obtain ⟨hr₀, hr⟩ := List.forall_mem_cons.mp hr
      obtain ⟨hm₀, hm⟩ := List.forall_mem_cons.mp hm
      obtain ⟨hf₀, hf⟩ := List.forall_mem_cons.mp hf
      obtain ⟨h₁, hx₁⟩ := loadSummary_eq hothers hr₀ hm₀ hf₀ hx
      obtain ⟨h₂, hx₂⟩ := ih hr hm hf hx₁
      exact ⟨by rw [loadEach, List.map_cons, h₁, h₂], hx₂⟩

/-- **The summaries of a call are those of the store**, whatever the cache holds. -/
theorem loadSummaries_eq (hs : Serves s c) {refs : List InstanceRef}
    (hr : ∀ r ∈ refs, nul ∉ r.appID) {x : Shared} (hx : Coherent cd s ns c x.cache) :
    ∃ x', loadSummaries cd others s ns refs x = .ok (refs.map (summaryOf cd s ns c), x') ∧
      Coherent cd s ns c x'.cache := by
  obtain ⟨metas, hm, hf, hload⟩ := loadSummaries_of_serves cd others hs ns refs x
  obtain ⟨h₁, hx₁⟩ := loadEach_eq hothers hr hm hf hx
  exact ⟨_, by rw [hload, ← h₁], hx₁⟩

end Load

/-! ## 3. One call takes some whole pages -/

theorem accepted_append {toLower : Str → Str} {q : ListQuery}
    (a b : List (Option ExecutionSummary)) :
    accepted toLower q (a ++ b) = accepted toLower q a ++ accepted toLower q b := by
  simp [accepted]

theorem length_accepted_le {toLower : Str → Str} {q : ListQuery}
    (a : List (Option ExecutionSummary)) : (accepted toLower q a).length ≤ a.length :=
  (List.length_filter_le _ _).trans (List.length_filterMap_le _ _)

theorem sortByCreated_perm (items : List ExecutionSummary) : (sortByCreated items).Perm items :=
  List.mergeSort_perm _ _

/-- The instances of some keys. -/
def refsOf (ks : List Str) : List InstanceRef := ks.filterMap parseRef

theorem refsOf_metaKeys {ns : Str} (hns : ¬ keyDelimiter <:+: ns) {refs : List InstanceRef}
    (hp : ∀ r ∈ refs, Proper r) : refsOf (refs.map (·.metaKey ns)) = refs := by
  induction refs with
  | nil => rfl
  | cons r refs ih =>
      obtain ⟨hr, hp⟩ := List.forall_mem_cons.mp hp
      rw [refsOf, List.map_cons, List.filterMap_cons_some (parseRef_metaKey hns hr)]
      exact congrArg _ (ih hp)

/-- Keys that are the metadata keys of proper instances, each instance once. -/
def ProperKeys (ns : Str) (ks : List Str) : Prop :=
  ∃ refs : List InstanceRef, ks = refs.map (·.metaKey ns) ∧ refs.Nodup ∧ ∀ r ∈ refs, Proper r

theorem ProperKeys.of_append {ns : Str} {a b : List Str} (h : ProperKeys ns (a ++ b)) :
    ProperKeys ns b := by
  obtain ⟨refs, he, hnd, hp⟩ := h
  obtain ⟨ra, rb, rfl, -, rfl⟩ := List.map_eq_append_iff.mp he.symm
  exact ⟨rb, rfl, hnd.sublist (List.sublist_append_right ra rb),
    fun r hr => hp r (List.mem_append_right ra hr)⟩

section Call

variable {cd : Codec} {toLower : Str → Str} {others : Others} {s : StoreReads} {ns : Str}
  {c : Content} {q : ListQuery}
  (hothers : ∀ n cache, Coherent cd s ns c cache → Coherent cd s ns c (others n cache))
  (hs : Serves s c) (hns : ¬ keyDelimiter <:+: ns)

/-- The scan of a query, page by page. -/
abbrev scan (s : StoreReads) (ns : Str) (q : ListQuery) : Str → Except LoadError (List Str × Str) :=
  fun tok => metaKeys s ns q.appID tok q.effectivePageSize.toNat

/-- The rows of some keys. -/
def rowsOfKeys (cd : Codec) (toLower : Str → Str) (s : StoreReads) (ns : Str) (c : Content)
    (q : ListQuery) (ks : List Str) : List ExecutionSummary :=
  rowsOf cd toLower s ns c q (refsOf ks)

theorem rowsOfKeys_append (a b : List Str) :
    rowsOfKeys cd toLower s ns c q (a ++ b) =
      rowsOfKeys cd toLower s ns c q a ++ rowsOfKeys cd toLower s ns c q b := by
  simp [rowsOfKeys, rowsOf, refsOf, accepted_append]

include hothers hs hns

/-- One round of the loop. -/
theorem listLoop_round {tok next : Str} {refs : List InstanceRef}
    (hread : scan s ns q tok = .ok (refs.map (·.metaKey ns), next)) (hnd : refs.Nodup)
    (hp : ∀ r ∈ refs, Proper r) (fuel : Nat) (scanned : Int) {seen : List Str}
    (hseen : ∀ r ∈ refs, r.dedupKey ∉ seen) (items : List ExecutionSummary) {x : Shared}
    (hx : Coherent cd s ns c x.cache) :
    ∃ x' scanned', Coherent cd s ns c x'.cache ∧
      listLoop cd others s ns toLower q (fuel + 1) tok scanned seen items x =
        if q.stops (items ++ rowsOf cd toLower s ns c q refs) next scanned' then
          some (.ok (⟨items ++ rowsOf cd toLower s ns c q refs, next⟩, x'))
        else listLoop cd others s ns toLower q fuel next scanned'
          ((refs.map (·.dedupKey)).reverse ++ seen) (items ++ rowsOf cd toLower s ns c q refs) x' := by
  obtain ⟨x', hload, hx'⟩ := loadSummaries_eq hothers hs (fun r hr => (hp r hr).app_nul) hx
  refine ⟨x', scanned + refs.length, hx', ?_⟩
  rw [listLoop, show metaKeys s ns q.appID tok _ = _ from hread]
  simp only [refsFromKeys_metaKeys hns hp hnd hseen, hload, List.length_map]
  rfl

/-- **The loop of one call**: it takes some whole pages, one if no filter is active, adds their
    rows and says where the next call goes on. -/
theorem listLoop_consumes {tok : Str} {pages : List (List Str)}
    (hpages : Pages [] (scan s ns q) tok pages) (hkeys : ProperKeys ns pages.flatten) {fuel : Nat}
    (hfuel : pages.length ≤ fuel) {scanned : Int} {seen : List Str}
    (hseen : ∀ r ∈ refsOf pages.flatten, r.dedupKey ∉ seen) {items : List ExecutionSummary}
    {x : Shared} (hx : Coherent cd s ns c x.cache) :
    ∃ used rest next x', pages = used ++ rest ∧ used ≠ [] ∧
      listLoop cd others s ns toLower q fuel tok scanned seen items x =
        some (.ok (⟨items ++ rowsOfKeys cd toLower s ns c q used.flatten, next⟩, x')) ∧
      Coherent cd s ns c x'.cache ∧
      ((next = [] ∧ rest = []) ∨ (next ≠ [] ∧ Pages [] (scan s ns q) next rest)) ∧
      (q.filtered = false → used.length = 1) := by
  induction hpages generalizing fuel scanned seen items x with
  | @last tok ks hread =>
      rw [List.flatten_singleton] at hkeys hseen
      obtain ⟨refs, rfl, hnd, hp⟩ := hkeys
      rw [refsOf_metaKeys hns hp] at hseen
      obtain ⟨fuel, rfl⟩ := Nat.exists_eq_add_one_of_ne_zero
        (show fuel ≠ 0 from fun h => by simp [h] at hfuel)
      obtain ⟨x', n, hx', hloop⟩ := @listLoop_round cd toLower _ _ _ _ _ hothers hs hns _ _ _ hread
        hnd hp fuel scanned _ hseen items _ hx
      refine ⟨[refs.map (·.metaKey ns)], [], [], x', rfl, by simp, ?_, hx', .inl ⟨rfl, rfl⟩,
        fun _ => rfl⟩
      rw [hloop, if_pos (by simp [ListQuery.stops]), List.flatten_singleton, rowsOfKeys,
        refsOf_metaKeys hns hp]
  | @more tok next ks rest hread hne hrest ih =>
      rw [List.flatten_cons] at hkeys hseen
      have hkeys' := hkeys.of_append
      obtain ⟨refs, he, hnd, hp⟩ := hkeys
      obtain ⟨rk, rr, rfl, rfl, hrr⟩ := List.map_eq_append_iff.mp he.symm
      have hpk : ∀ r ∈ rk, Proper r := fun r hr => hp r (List.mem_append_left rr hr)
      have hpr : ∀ r ∈ rr, Proper r := fun r hr => hp r (List.mem_append_right rk hr)
      rw [← hrr, ← List.map_append, refsOf_metaKeys hns hp] at hseen
      obtain ⟨fuel, rfl⟩ := Nat.exists_eq_add_one_of_ne_zero
        (show fuel ≠ 0 from fun h => by simp [h] at hfuel)
      obtain ⟨x', n, hx', hloop⟩ := @listLoop_round cd toLower _ _ _ _ _ hothers hs hns _ _ _ hread
        (hnd.sublist (List.sublist_append_left rk rr)) hpk fuel scanned _
        (fun r hr => hseen r (List.mem_append_left rr hr)) items _ hx
      have hrows : rowsOf cd toLower s ns c q rk =
          rowsOfKeys cd toLower s ns c q (rk.map (·.metaKey ns)) := by
        rw [rowsOfKeys, refsOf_metaKeys hns hpk]
      rw [hrows] at hloop
      rw [hloop]
      by_cases hstop : q.stops (items ++ rowsOfKeys cd toLower s ns c q (rk.map (·.metaKey ns)))
          next n = true
      · refine ⟨[rk.map (·.metaKey ns)], rest, next, x', rfl, by simp, ?_, hx', .inr ⟨hne, hrest⟩,
          fun _ => rfl⟩
        rw [if_pos hstop, List.flatten_singleton]
      · -- the next page: what it brings is new to `seen`
        have hseen' : ∀ r ∈ refsOf rest.flatten,
            r.dedupKey ∉ (rk.map (·.dedupKey)).reverse ++ seen := by
          intro r hr hm
          rw [← hrr, refsOf_metaKeys hns hpr] at hr
          rw [List.mem_append, List.mem_reverse, List.mem_map] at hm
          rcases hm with ⟨r', hr', he⟩ | hm
          · have hd := (List.nodup_append.mp hnd).2.2 r' hr' r hr
            exact hd (dedupKey_inj (hpk r' hr') (hpr r hr) he)
          · exact hseen r (List.mem_append_right rk hr) hm
        obtain ⟨used, rest', next', x'', rfl, hu, hl, hx'', hn, hf⟩ :=
          @ih hkeys' fuel (by simpa using hfuel) n _ hseen'
            (items ++ rowsOfKeys cd toLower s ns c q (rk.map (·.metaKey ns))) _ hx'
        refine ⟨rk.map (·.metaKey ns) :: used, rest', next', x'', rfl, by simp, ?_, hx'', hn,
          fun hq => ?_⟩
        · rw [if_neg hstop, hl, List.flatten_cons, rowsOfKeys_append, List.append_assoc]
        · simp [ListQuery.stops, hq] at hstop

end Call

/-! ## 4. What `Stats` counts -/

theorem foldl_add (rows : List ExecutionSummary) (res : StatsResult) :
    (∀ st, (rows.foldl StatsResult.add res).counts st =
      res.counts st + rows.countP fun row => decide (row.status = st)) ∧
    (rows.foldl StatsResult.add res).total = res.total + rows.length := by
  induction rows generalizing res with
  | nil => exact ⟨fun _ => rfl, rfl⟩
  | cons row rows ih =>
      obtain ⟨hc, ht⟩ := ih (res.add row)
      refine ⟨fun st => ?_, ?_⟩
      · rw [List.foldl_cons, hc, List.countP_cons]
        by_cases h : st = row.status
        · simp only [StatsResult.add, h, if_true, decide_true]
          omega
        · simp [StatsResult.add, h, Ne.symm h]
      · rw [List.foldl_cons, ht, List.length_cons]
        simp only [StatsResult.add]
        omega

/-- Without a status filter a query and the one `Stats` builds from it accept the same rows. -/
theorem matchesQuery_stats {toLower : Str → Str} {q : ListQuery} (h : q.status = [])
    (row : ExecutionSummary) :
    matchesQuery toLower row { search := q.search, includeChildren := q.includeChildren } =
      matchesQuery toLower row q := by
  simp [matchesQuery, h]

/-! ## 5. The walk -/

theorem effectivePageSize_pos (q : ListQuery) : 0 < q.effectivePageSize := by
  unfold ListQuery.effectivePageSize
  split
  · decide
  · omega

/-- A page that is not too long is only sorted. -/
theorem finishPage_perm {q : ListQuery} {r : ListResult}
    (h : q.filtered = false → r.items.length ≤ q.effectivePageSize.toNat) :
    (finishPage q r).items.Perm r.items ∧ (finishPage q r).nextToken = r.nextToken := by
  have hlen := (sortByCreated_perm r.items).length_eq
  have hpos := effectivePageSize_pos q
  have hneg : ¬ (!q.filtered && decide (q.effectivePageSize < (sortByCreated r.items).length)) := by
    intro hc
    rw [Bool.and_eq_true, Bool.not_eq_true', decide_eq_true_eq] at hc
    have := h hc.1
    omega
  unfold finishPage
  simp only
  rw [if_neg hneg]
  exact ⟨sortByCreated_perm r.items, rfl⟩

/-- The cursor splits the keys that match a pattern into consecutive pages of at most the page
    size. -/
def Cursor (s : StoreReads) (c : Content) : Prop :=
  ∀ pattern pageSize, 0 < pageSize →
    ∃ pages, Pages [] (fun tok => s.keys pattern tok pageSize) [] pages ∧
      (∀ p ∈ pages, p.length ≤ pageSize) ∧ pages.flatten = c.keysLike pattern

theorem ProperKeys.of_forall {ns : Str} {ks : List Str} (hnd : ks.Nodup)
    (h : ∀ k ∈ ks, ∃ r, Proper r ∧ k = r.metaKey ns) : ProperKeys ns ks := by
  induction ks with
  | nil => exact ⟨[], rfl, List.nodup_nil, by simp⟩
  | cons k ks ih =>
      obtain ⟨hk, hks⟩ := List.nodup_cons.mp hnd
      obtain ⟨⟨r, hr, rfl⟩, hrest⟩ := List.forall_mem_cons.mp h
      obtain ⟨refs, rfl, hn, hp⟩ := ih hks hrest
      refine ⟨r :: refs, rfl, List.nodup_cons.mpr ⟨fun hm => hk (List.mem_map_of_mem hm), hn⟩, ?_⟩
      exact List.forall_mem_cons.mpr ⟨hr, hp⟩

theorem mem_rowsOf {cd : Codec} {toLower : Str → Str} {s : StoreReads} {ns : Str} {c : Content}
    {q : ListQuery} {refs : List InstanceRef} {row : ExecutionSummary} :
    row ∈ rowsOf cd toLower s ns c q refs ↔
      ∃ r ∈ refs, summaryOf cd s ns c r = some row ∧ matchesQuery toLower row q = true := by
  simp only [rowsOf, accepted, List.mem_filter, List.mem_filterMap, List.mem_map, id]
  constructor
  · rintro ⟨⟨o, ⟨r, hr, rfl⟩, ho⟩, hm⟩
    exact ⟨r, hr, ho, hm⟩
  · rintro ⟨r, hr, ho, hm⟩
    exact ⟨⟨_, ⟨r, hr, rfl⟩, ho⟩, hm⟩

theorem ids_of_loadByScan {cd : Codec} {s : StoreReads} {ns app id : Str} {ex : Execution}
    (h : loadByScan cd s ns app id = .ok ex) :
    ex.summary.appID = app ∧ ex.summary.instanceID = id := by
  obtain ⟨⟨keys, next⟩, -, h⟩ := exists_of_bind_ok h
  by_cases hk : keys = []
  · simp only [hk, if_true] at h
    cases h
  · simp only [hk, if_false] at h
    obtain ⟨values, -, h⟩ := exists_of_bind_ok h
    obtain rfl := Except.ok.inj h
    exact ⟨rfl, rfl⟩

theorem ids_of_loadWithMeta {cd : Codec} {s : StoreReads} {ns app id : Str} {record : Option Bytes}
    {ex : Execution} {b : Bool} (h : loadWithMeta cd s ns app id record = .ok (ex, b)) :
    ex.summary.appID = app ∧ ex.summary.instanceID = id := by
  unfold loadWithMeta at h
  split at h
  · obtain ⟨ex', hl, he⟩ := exists_of_bind_ok h
    obtain ⟨rfl, -⟩ := Prod.mk.inj (Except.ok.inj he)
    exact ids_of_loadByScan hl
  · obtain ⟨values, -, he⟩ := exists_of_bind_ok h
    obtain ⟨rfl, -⟩ := Prod.mk.inj (Except.ok.inj he)
    exact ⟨rfl, rfl⟩

/-- A summary carries the ids it was asked for. -/
theorem ids_of_summaryOf {cd : Codec} {s : StoreReads} {ns : Str} {c : Content} {r : InstanceRef}
    {row : ExecutionSummary} (h : summaryOf cd s ns c r = some row) :
    (⟨row.appID, row.instanceID⟩ : InstanceRef) = r := by
  unfold summaryOf at h
  split at h
  · rename_i ex b hl
    obtain ⟨ha, hi⟩ := ids_of_loadWithMeta hl
    rw [← Option.some.inj h, ha, hi]
  · cases h

/-- The rows of different instances are rows of different instances. -/
theorem nodup_rowsOf {cd : Codec} {toLower : Str → Str} {s : StoreReads} {ns : Str} {c : Content}
    {q : ListQuery} {refs : List InstanceRef} (h : refs.Nodup) :
    ((rowsOf cd toLower s ns c q refs).map fun row =>
      (⟨row.appID, row.instanceID⟩ : InstanceRef)).Nodup := by
  refine h.sublist ?_
  induction refs with
  | nil => exact List.Sublist.slnil
  | cons r refs ih =>
      have ih := ih (List.nodup_cons.mp h).2
      unfold rowsOf accepted at ih ⊢
      rw [List.map_cons]
      cases hsum : summaryOf cd s ns c r with
      | none =>
          refine List.Sublist.cons r ?_
          simpa using ih
      | some row =>
          by_cases hm : matchesQuery toLower row q = true
          · have hr := ids_of_summaryOf hsum
            simpa [hm, hr] using ih
          · refine List.Sublist.cons r ?_
            simpa [hm] using ih

section Walk

variable {cd : Codec} {toLower : Str → Str} {others : Others} {svc : Service} {s : StoreReads}
  {c : Content} (hstore : svc.store = some s) (hres : svc.nsResolver = none) (hs : Serves s c)
  (hns : ¬ keyDelimiter <:+: svc.ns)
  (hothers : ∀ n cache, Coherent cd s svc.ns c cache → Coherent cd s svc.ns c (others n cache))

include hres in
omit hstore hs hns hothers in
theorem effectiveNS_of_none (app : Str) : svc.effectiveNS app = svc.ns := by
  simp [Service.effectiveNS, hres]

include hstore hres hs hns hothers

/-- One call of a client that follows the tokens. -/
theorem list_consumes (q : ListQuery) (tok : Str) {pages : List (List Str)} {fuel : Nat}
    {x : Shared} (hpages : Pages [] (scan s svc.ns q) tok pages) (hfuel : pages.length ≤ fuel)
    (hkeys : ProperKeys svc.ns pages.flatten ∧ ∀ p ∈ pages, p.length ≤ q.effectivePageSize.toNat)
    (hx : Coherent cd s svc.ns c x.cache) :
    Consumes [] (scan s svc.ns q) (rowsOfKeys cd toLower s svc.ns c q)
      (fun x => Coherent cd s svc.ns c x.cache) pages
      (match svc.list cd toLower others fuel { q with pageToken := tok } x with
        | some (.ok (r, x')) => some (.ok (r.items, r.nextToken, x'))
        | some (.error e) => some (.error e)
        | none => none) := by
  obtain ⟨used, rest, next, x', rfl, hne, hloop, hx', hrest, hone⟩ :=
    @listLoop_consumes cd toLower _ _ _ _ { q with pageToken := tok } hothers hs hns _ _ hpages
      hkeys.1 _ hfuel 0 [] (by simp) [] _ hx
  have hpage : q.filtered = false →
      (rowsOfKeys cd toLower s svc.ns c q used.flatten).length ≤ q.effectivePageSize.toNat := by
    intro hf
    obtain ⟨ks, rfl⟩ := List.length_eq_one_iff.mp (hone hf)
    rw [List.flatten_singleton]
    calc (rowsOfKeys cd toLower s svc.ns c q ks).length
        ≤ ((refsOf ks).map (summaryOf cd s svc.ns c)).length := length_accepted_le _
      _ ≤ ks.length := by rw [List.length_map]; exact List.length_filterMap_le _ _
      _ ≤ q.effectivePageSize.toNat := hkeys.2 ks (by simp)
  obtain ⟨hperm, hnext⟩ := finishPage_perm (q := { q with pageToken := tok })
    (r := ⟨rowsOfKeys cd toLower s svc.ns c q used.flatten, next⟩) hpage
  refine ⟨used, rest, _, next, x', rfl, hne, ?_, hperm, hx', hrest⟩
  have hlist : svc.list cd toLower others fuel { q with pageToken := tok } x =
      some (.ok (finishPage { q with pageToken := tok }
        ⟨rowsOfKeys cd toLower s svc.ns c q used.flatten, next⟩, x')) := by
    unfold Service.list
    rw [hstore]
    simp only [effectiveNS_of_none hres]
    rw [hloop]
    rfl
  rw [hlist]
  simp only [hnext]

/-- The rows of the walk, in some order. -/
theorem listAll_perm (hcur : Cursor s c) (q : ListQuery)
    (hkeys : ProperKeys svc.ns (c.keysLike (metaPattern svc.ns q.appID))) {x : Shared}
    (hx : Coherent cd s svc.ns c x.cache) :
    ∃ N, ∀ fuel ≥ N, ∃ rows, svc.listAll cd toLower others fuel q x = some (.ok rows) ∧
      rows.Perm (rowsOfKeys cd toLower s svc.ns c q
        (c.keysLike (metaPattern svc.ns q.appID))) := by
  have hpos : 0 < q.effectivePageSize.toNat := by
    have := effectivePageSize_pos q
    omega
  obtain ⟨pages, hpages, hlen, hflat⟩ := hcur (metaPattern svc.ns q.appID) _ hpos
  rw [← hflat] at hkeys ⊢
  refine ⟨pages.length, fun fuel hfuel => ?_⟩
  let P : List (List Str) → Prop := fun pages => ProperKeys svc.ns pages.flatten ∧
    ∀ p ∈ pages, p.length ≤ q.effectivePageSize.toNat
  have hP : ∀ a b, P (a ++ b) → P b := fun a b h => ⟨(List.flatten_append ▸ h.1).of_append,
    fun p hp => h.2 p (List.mem_append_right a hp)⟩
  exact Paging.walk_perm (rowsOfKeys_append (q := q)) hP
    (fun tok pages x hpages hm hP hx =>
      list_consumes hstore hres hs hns hothers q tok hpages hm hP hx)
    fuel [] pages x hpages hfuel hfuel ⟨hkeys, hlen⟩ hx

/-- `Stats` counts the rows of the query. -/
theorem stats_counts {q : ListQuery} (hq : q.status = [])
    (hkeys : ProperKeys svc.ns (c.keysLike (metaPattern svc.ns q.appID))) {x : Shared}
    (hx : Coherent cd s svc.ns c x.cache) :
    ∃ res x', svc.stats cd toLower others q x = .ok (res, x') ∧
      (∀ st, res.counts st = (rowsOfKeys cd toLower s svc.ns c q
        (c.keysLike (metaPattern svc.ns q.appID))).countP fun row => decide (row.status = st)) ∧
      res.total = (rowsOfKeys cd toLower s svc.ns c q
        (c.keysLike (metaPattern svc.ns q.appID))).length := by
  obtain ⟨refs, hrefs, hnd, hp⟩ := hkeys
  obtain ⟨next, hscan⟩ := hs.keys (metaPattern svc.ns q.appID)
  obtain ⟨x', hload, hx'⟩ := loadSummaries_eq hothers hs (fun r hr => (hp r hr).app_nul) hx
  have hrows : accepted toLower { search := q.search, includeChildren := q.includeChildren }
      (refs.map (summaryOf cd s svc.ns c)) = rowsOfKeys cd toLower s svc.ns c q
        (c.keysLike (metaPattern svc.ns q.appID)) := by
    rw [hrefs, rowsOfKeys, refsOf_metaKeys hns hp]
    simp only [rowsOf, accepted, matchesQuery_stats hq]
  obtain ⟨hc, ht⟩ := foldl_add (rowsOfKeys cd toLower s svc.ns c q
    (c.keysLike (metaPattern svc.ns q.appID))) ⟨fun _ => 0, 0⟩
  refine ⟨_, { x'.arrive others with
      cache := (x'.arrive others).cache.prune svc.ns q.appID (refs.map (·.cacheKey svc.ns)) },
    ?_, fun st => (hc st).trans (Nat.zero_add _), ht.trans (Nat.zero_add _)⟩
  have hseen : ∀ r ∈ refs, r.dedupKey ∉ ([] : List Str) := fun _ _ => List.not_mem_nil
  rw [← hrows]
  unfold Service.stats
  simp only [hstore, effectiveNS_of_none hres, metaKeys, hscan, bind, Except.bind, hrefs,
    refsFromKeys_metaKeys hns hp hnd hseen, hload, pure, Except.pure]

/-- **Paging is complete and agrees with `Stats`.** On an unchanging store whose keys in the scan
    are those of proper instances, a client that follows the tokens from `""` gets a row for each
    instance whose summary the query accepts, once, and no other; without a status filter
    `Stats` counts the same rows. -/
theorem listAll_complete (hcur : Cursor s c) (q : ListQuery)
    (hkeys : ∀ k ∈ c.keysLike (metaPattern svc.ns q.appID),
      ∃ r, Proper r ∧ k = r.metaKey svc.ns) {x : Shared}
    (hx : Coherent cd s svc.ns c x.cache) :
    ∃ N, ∀ fuel ≥ N, ∃ rows, svc.listAll cd toLower others fuel q x = some (.ok rows) ∧
      (rows.map fun row => (⟨row.appID, row.instanceID⟩ : InstanceRef)).Nodup ∧
      (∀ row, row ∈ rows ↔ ∃ r, Proper r ∧
        r.metaKey svc.ns ∈ c.keysLike (metaPattern svc.ns q.appID) ∧
        summaryOf cd s svc.ns c r = some row ∧ matchesQuery toLower row q = true) ∧
      (q.status = [] → ∀ y : Shared, Coherent cd s svc.ns c y.cache →
        ∃ res y', svc.stats cd toLower others q y = .ok (res, y') ∧
          (∀ st, res.counts st = rows.countP fun row => decide (row.status = st)) ∧
          res.total = rows.length) := by
  have hproper : ProperKeys svc.ns (c.keysLike (metaPattern svc.ns q.appID)) :=
    ProperKeys.of_forall (c.nodup.sublist List.filter_sublist) hkeys
  obtain ⟨N, hN⟩ := @listAll_perm cd toLower _ _ _ _ hstore hres hs hns hothers hcur q hproper _ hx
  obtain ⟨refs, hrefs, hnd, hp⟩ := id hproper
  refine ⟨N, fun fuel hfuel => ?_⟩
  obtain ⟨rows, hall, hperm⟩ := hN fuel hfuel
  refine ⟨rows, hall, ?_, fun row => ?_, fun hq y hy => ?_⟩
  · rw [hrefs, rowsOfKeys, refsOf_metaKeys hns hp] at hperm
    exact (hperm.map _).nodup_iff.mpr (nodup_rowsOf hnd)
  · rw [hperm.mem_iff, rowsOfKeys, hrefs, refsOf_metaKeys hns hp, mem_rowsOf]
    constructor
    · rintro ⟨r, hr, hsum, hm⟩
      exact ⟨r, hp r hr, List.mem_map_of_mem hr, hsum, hm⟩
    · rintro ⟨r, hr, hmem, hsum, hm⟩
      obtain ⟨r', hr', he⟩ := List.mem_map.mp hmem
      -- the key is parsed back to both
      have hrr := congrArg parseRef he
      rw [parseRef_metaKey hns hr, parseRef_metaKey hns (hp r' hr')] at hrr
      exact ⟨r, Option.some.inj hrr ▸ hr', hsum, hm⟩
  · obtain ⟨res, y', hstats, hc, ht⟩ :=
      @stats_counts cd toLower _ _ _ _ hstore hres hs hns hothers _ hq hproper _ hy
    exact ⟨res, y', hstats, fun st => (hc st).trans (hperm.countP_eq _).symm,
      ht.trans hperm.length_eq.symm⟩

end Walk

/-! ## 6. Stores of one page, of several pages, of one key -/

/-- A call that ends after one round. -/
theorem list_oneRound {cd : Codec} {toLower : Str → Str} {others : Others} {svc : Service}
    {s : StoreReads} {ns : Str} (hstore : svc.store = some s) (q : ListQuery)
    (hns : svc.effectiveNS q.appID = ns) {keys seen : List Str} {next : Str}
    {refs : List InstanceRef} {results : List (Option ExecutionSummary)} {x x' : Shared}
    (hkeys : metaKeys s ns q.appID q.pageToken q.effectivePageSize.toNat = .ok (keys, next))
    (hrefs : refsFromKeys keys [] = (refs, seen))
    (hload : loadSummaries cd others s ns refs x = .ok (results, x'))
    (hstop : ∀ scanned, q.stops (accepted toLower q results) next scanned = true) (fuel : Nat) :
    svc.list cd toLower others (fuel + 1) q x =
      some (.ok (finishPage q ⟨accepted toLower q results, next⟩, x')) := by
  have hloop : listLoop cd others s ns toLower q (fuel + 1) q.pageToken 0 [] [] x =
      some (.ok (⟨accepted toLower q results, next⟩, x')) := by
    rw [listLoop, hkeys]
    simp only [hrefs, hload, List.nil_append]
    rw [if_pos (hstop _)]
  unfold Service.list
  simp only [hstore, hns, hloop]

/-- A store that answers every scan on one page: one round. -/
theorem list_onePage {cd : Codec} {toLower : Str → Str} {others : Others} {svc : Service} {ns : Str}
    {c : Content} (hstore : svc.store = some (storeOf c)) (q : ListQuery)
    (hns : svc.effectiveNS q.appID = ns) {refs : List InstanceRef} {seen : List Str}
    {results : List (Option ExecutionSummary)} {x x' : Shared}
    (hrefs : refsFromKeys (c.keysLike (metaPattern ns q.appID)) [] = (refs, seen))
    (hload : loadSummaries cd others (storeOf c) ns refs x = .ok (results, x')) (fuel : Nat) :
    svc.list cd toLower others (fuel + 1) q x =
      some (.ok (finishPage q ⟨accepted toLower q results, []⟩, x')) :=
  list_oneRound hstore q hns rfl hrefs hload (fun _ => by simp [ListQuery.stops]) fuel

/-- A store that answers from `c` page by page. -/
def pageStore (c : Content) : StoreReads where
  keys pattern tok pageSize :=
    if pageSize = 0 then .ok (c.keysLike pattern, [])
    else .ok (Paging.cut (c.keysLike pattern) pageSize tok)
  get k := .ok (c.get k)
  bulkGet ks := .ok (c.bulkGet ks)

theorem serves_pageStore (c : Content) : Serves (pageStore c) c :=
  ⟨fun _ => ⟨[], rfl⟩, fun _ => rfl, fun _ => rfl⟩

theorem cursor_pageStore (c : Content) : Cursor (pageStore c) c := by
  intro pattern pageSize hpos
  have hread : (fun tok => (pageStore c).keys pattern tok pageSize) =
      fun tok => .ok (Paging.cut (c.keysLike pattern) pageSize tok) := by
    simp only [pageStore, if_neg hpos.ne']
  rw [hread]
  exact Paging.pages_cut _ hpos

/-- A store that holds one metadata record. -/
def oneKey (ns : Str) (r : InstanceRef) (b : Bytes) : Content := ⟨[(r.metaKey ns, b)], by simp⟩

theorem get_oneKey (ns : Str) (r : InstanceRef) (b : Bytes) :
    (oneKey ns r b).get (r.metaKey ns) = some b := by
  simp [oneKey, Content.get]

theorem length_keysLike_oneKey_le (ns : Str) (r : InstanceRef) (b : Bytes) (pattern : Str) :
    ((oneKey ns r b).keysLike pattern).length ≤ 1 := List.length_filter_le _ _

theorem cursor_oneKey (ns : Str) (r : InstanceRef) (b : Bytes) :
    Cursor (storeOf (oneKey ns r b)) (oneKey ns r b) := by
  intro pattern pageSize hpos
  refine ⟨[(oneKey ns r b).keysLike pattern], .last rfl, fun p hp => ?_, List.flatten_singleton⟩
  rw [List.mem_singleton.mp hp]
  exact (length_keysLike_oneKey_le ns r b pattern).trans hpos

theorem exists_summaryOf_oneKey {cd : Codec} {ns : Str} {r : InstanceRef} {b : Bytes} {n : Nat}
    (h : historyLength cd (some b) = some n) :
    ∃ row, summaryOf cd (storeOf (oneKey ns r b)) ns (oneKey ns r b) r = some row := by
  have hl := @loadWithMeta_eq cd _ _ (serves_storeOf (oneKey ns r b)) ns r.appID r.id _ _ h
  exact ⟨_, by simp only [summaryOf, get_oneKey, hl]; rfl⟩

/-- The service over such a store. -/
def oneKeyService (ns : Str) (r : InstanceRef) (b : Bytes) : Service :=
  { store := some (storeOf (oneKey ns r b)), ns := ns }

/-- The instance `42` of the app `shop`. -/
def order42 : InstanceRef := ⟨"shop".toList, "42".toList⟩

theorem proper_order42 : Proper order42 := by
  constructor <;> decide

theorem coherent_empty (cd : Codec) (s : StoreReads) (ns : Str) (c : Content) (max : Nat) :
    Coherent cd s ns c (newSummaryCache max) := by
  intro k e hm
  exact absurd hm List.not_mem_nil

/-- The query without a filter. -/
def everything : ListQuery := { includeChildren := true }

theorem matches_everything (row : ExecutionSummary) : matchesQuery id row everything = true := by
  simp [matchesQuery, everything]

/-- The instance `1` of the app `shop`, and the instance `7` of the app `cart`. -/
def order1 : InstanceRef := ⟨"shop".toList, "1".toList⟩

def cart7 : InstanceRef := ⟨"cart".toList, "7".toList⟩

def orderRefs : List InstanceRef := [order1, cart7, order42]

theorem proper_of_mem_orderRefs : ∀ r ∈ orderRefs, Proper r := by
  intro r hr
  constructor <;> revert r <;> decide

/-- A store with the metadata records of the three. -/
def orders : Content := ⟨orderRefs.map fun r => (r.metaKey "d".toList, lengthOne), by decide⟩

theorem ref_of_mem_orders {k : Str} (h : k ∈ orders.keys) :
    ∃ r ∈ orderRefs, k = r.metaKey "d".toList := by
  obtain ⟨kv, hkv, rfl⟩ := List.mem_map.mp h
  obtain ⟨r, hr, rfl⟩ := List.mem_map.mp hkv
  exact ⟨r, hr, rfl⟩

theorem exists_summaryOf_orders {s : StoreReads} (hs : Serves s orders) {r : InstanceRef}
    (hr : r ∈ orderRefs) : ∃ row, summaryOf tinyCodec s "d".toList orders r = some row := by
  have hlen : ∀ r ∈ orderRefs,
      historyLength tinyCodec (orders.get (r.metaKey "d".toList)) = some 1 := by decide
  have hsome : ∀ r ∈ orderRefs, orders.get (r.metaKey "d".toList) = some lengthOne := by decide
  have hl := @loadWithMeta_eq tinyCodec _ _ hs "d".toList r.appID r.id _ _ (hlen r hr)
  rw [hsome r hr] at hl
  exact ⟨_, by simp only [summaryOf, hsome r hr, hl]; rfl⟩

/-- The service over it, which hands out its keys page by page. -/
def ordersService : Service := { store := some (pageStore orders), ns := "d".toList }

/-- The query that accepts everything, one key a page. -/
def oneAPage : ListQuery := { pageSize := 1, includeChildren := true }

/-- Three pages: the client gets the three instances of the two apps. -/
theorem listAll_complete_orders :
    ∃ N, ∀ fuel ≥ N, ∃ rows, ordersService.listAll tinyCodec id (fun _ cache => cache) fuel oneAPage
        ⟨newSummaryCache maxCachedSummaries, 0⟩ = some (.ok rows) ∧
      ∀ r ∈ orderRefs, ∃ row ∈ rows, row.appID = r.appID ∧ row.instanceID = r.id := by
  have hkeys : ∀ k ∈ orders.keysLike (metaPattern "d".toList oneAPage.appID),
      ∃ r, Proper r ∧ k = r.metaKey "d".toList := by
    intro k hk
    obtain ⟨r, hr, he⟩ := ref_of_mem_orders (Content.mem_keysLike.mp hk).1
    exact ⟨r, proper_of_mem_orderRefs r hr, he⟩
  obtain ⟨N, hN⟩ := @listAll_complete tinyCodec id (fun _ cache => cache) ordersService _ _ rfl rfl
    (serves_pageStore orders) (by decide) (fun _ _ h => h) (cursor_pageStore orders) oneAPage hkeys
    ⟨newSummaryCache maxCachedSummaries, 0⟩ (coherent_empty _ _ _ _ _)
  have hscan : ∀ r ∈ orderRefs,
      r.metaKey "d".toList ∈ orders.keysLike (metaPattern "d".toList oneAPage.appID) := by decide
  refine ⟨N, fun fuel hfuel => ?_⟩
  obtain ⟨rows, hall, -, hmem, -⟩ := hN fuel hfuel
  refine ⟨rows, hall, fun r hr => ?_⟩
  obtain ⟨row, hrow⟩ := exists_summaryOf_orders (serves_pageStore orders) hr
  have hids := ids_of_summaryOf hrow
  refine ⟨row, (hmem row).mpr ⟨r, proper_of_mem_orderRefs r hr, hscan r hr, hrow, ?_⟩, ?_⟩
  · simp [matchesQuery, oneAPage]
  · exact ⟨congrArg InstanceRef.appID hids, congrArg InstanceRef.id hids⟩

/-- What a client gets from such a store: one page. -/
theorem listAll_oneKey {cd : Codec} {toLower : Str → Str} {ns : Str} {r : InstanceRef} {b : Bytes}
    {x x' : Shared} {others : Others} {refs : List InstanceRef} {seen : List Str}
    {results : List (Option ExecutionSummary)}
    (hrefs : refsFromKeys ((oneKey ns r b).keysLike (metaPattern ns everything.appID)) [] =
      (refs, seen))
    (hload : loadSummaries cd others (storeOf (oneKey ns r b)) ns refs x = .ok (results, x'))
    (hone : results.length ≤ 1) (fuel : Nat) :
    ∃ rows, (oneKeyService ns r b).listAll cd toLower others (fuel + 1) everything x =
      some (.ok rows) ∧ rows.Perm (accepted toLower everything results) := by
  have hlist : (oneKeyService ns r b).list cd toLower others (fuel + 1)
      { everything with pageToken := [] } x =
      some (.ok (finishPage everything ⟨accepted toLower everything results, []⟩, x')) :=
    @list_onePage cd toLower others (oneKeyService ns r b) ns (oneKey ns r b) rfl everything rfl
      refs seen results x x' hrefs hload fuel
  obtain ⟨hperm, hnext⟩ := finishPage_perm (q := everything)
    (r := ⟨accepted toLower everything results, []⟩)
    fun _ => ((length_accepted_le results).trans hone).trans (by decide)
  refine ⟨_, ?_, hperm⟩
  unfold Service.listAll Paging.walk
  rw [hlist]
  simp only [hnext, if_true]

/-- The only key the query's scan sees is the metadata key of `r`, whose ids are free of bars and
    slashes, and the query accepts its summary, but a client that follows the tokens does not get
    it. -/
structure Missed (ns : Str) (r : InstanceRef) (cache : SummaryCache) : Prop where
  ids : '|' ∉ r.appID ∧ '/' ∉ r.appID ∧ '|' ∉ r.id
  serves : Serves (storeOf (oneKey ns r lengthOne)) (oneKey ns r lengthOne)
  cursor : Cursor (storeOf (oneKey ns r lengthOne)) (oneKey ns r lengthOne)
  keys : (oneKey ns r lengthOne).keysLike (metaPattern ns everything.appID) = [r.metaKey ns]
  coherent : Coherent tinyCodec (storeOf (oneKey ns r lengthOne)) ns (oneKey ns r lengthOne) cache
  missed : ∃ row, summaryOf tinyCodec (storeOf (oneKey ns r lengthOne)) ns (oneKey ns r lengthOne) r = some row ∧
    matchesQuery id row everything = true ∧
    ∀ fuel, ∃ rows, (oneKeyService ns r lengthOne).listAll tinyCodec id (fun _ cache => cache) (fuel + 1)
      everything ⟨cache, 0⟩ = some (.ok rows) ∧ row ∉ rows

theorem missed_intro {ns : Str} {r : InstanceRef} {cache : SummaryCache}
    (hids : '|' ∉ r.appID ∧ '/' ∉ r.appID ∧ '|' ∉ r.id)
    (hcache : Coherent tinyCodec (storeOf (oneKey ns r lengthOne)) ns (oneKey ns r lengthOne) cache)
    (hkeys : (oneKey ns r lengthOne).keysLike (metaPattern ns everything.appID) = [r.metaKey ns])
    (refs : List InstanceRef) (seen : List Str) {results : List (Option ExecutionSummary)}
    {x' : Shared}
    (hrefs : refsFromKeys [r.metaKey ns] [] = (refs, seen))
    (hload : loadSummaries tinyCodec (fun _ cache => cache) (storeOf (oneKey ns r lengthOne)) ns refs
      ⟨cache, 0⟩ = .ok (results, x')) (hone : results.length ≤ 1)
    (hother : ∀ row, some row ∈ results → row.appID ≠ r.appID) : Missed ns r cache := by
  obtain ⟨row, hrow⟩ := @exists_summaryOf_oneKey tinyCodec ns r lengthOne 1 (by decide)
  refine ⟨hids, serves_storeOf _, cursor_oneKey _ _ _, hkeys, hcache, row, hrow,
    matches_everything row, fun fuel => ?_⟩
  obtain ⟨rows, hall, hperm⟩ := @listAll_oneKey _ id _ _ _ _ _ _ _ _ _ (hkeys ▸ hrefs) hload hone fuel
  refine ⟨rows, hall, fun hm => ?_⟩
  have hm' := hperm.mem_iff.mp hm
  simp only [accepted, List.mem_filter, List.mem_filterMap, id] at hm'
  obtain ⟨⟨o, ho, rfl⟩, -⟩ := hm'
  exact hother row ho (congrArg InstanceRef.appID (ids_of_summaryOf hrow))

/-- A key that is not parsed is skipped. -/
theorem missed_of_parseRef {ns : Str} {r : InstanceRef}
    (hids : '|' ∉ r.appID ∧ '/' ∉ r.appID ∧ '|' ∉ r.id)
    (hkeys : (oneKey ns r lengthOne).keysLike (metaPattern ns everything.appID) = [r.metaKey ns])
    (h : parseRef (r.metaKey ns) = none) : Missed ns r (newSummaryCache maxCachedSummaries) :=
  missed_intro hids (coherent_empty _ _ _ _ _) hkeys [] []
    (by simp only [refsFromKeys, h]) rfl (by decide) (by simp)

theorem summaryOf_missing {cd : Codec} {ns : Str} {c : Content} {r : InstanceRef}
    (h : c.get (r.metaKey ns) = none) (hk : c.keysLike (instanceKeyPattern ns r.appID r.id) = []) :
    summaryOf cd (storeOf c) ns c r = none := by
  have hl : loadByScan cd (storeOf c) ns r.appID r.id = .error .notFound := by
    rw [loadByScan_eq (serves_storeOf c), if_pos hk]
  simp only [summaryOf, h, loadWithMeta, historyLength, hl]
  rfl

/-- A namespace with a delimiter in it: the key is parsed at the wrong place. -/
theorem missed_delim_ns :
    Missed "a||b".toList order42 (newSummaryCache maxCachedSummaries) := by
  let wrong : InstanceRef := ⟨order42.appID, "b.".toList ++ order42.appID ++ actorTypeTail⟩
  have hnone := @summaryOf_missing tinyCodec "a||b".toList
    (oneKey "a||b".toList order42 lengthOne) wrong (by decide) (by decide)
  obtain ⟨x', hload, -⟩ := @loadSummaries_eq tinyCodec (fun _ cache => cache)
    (storeOf (oneKey "a||b".toList order42 lengthOne)) "a||b".toList _
    (fun _ _ h => h) (serves_storeOf _) [wrong] (by decide)
    ⟨newSummaryCache maxCachedSummaries, 0⟩ (coherent_empty _ _ _ _ _)
  refine missed_intro (by decide) (coherent_empty _ _ _ _ _) (by decide) [wrong] [wrong.dedupKey]
    (by decide) hload (by simp) ?_
  rw [List.map_singleton, hnone]
  simp

/-- The cached summary of the instance `b␀c` of the app `a`. -/
def cachedOther : CachedSummary where
  ns := "d".toList
  appID := "a".toList
  record := lengthOne
  first := []
  summary := { appID := "a".toList, instanceID := ['b', nul, 'c'], status := .pending }

theorem loadSummaries_hit {cd : Codec} {others : Others} {s : StoreReads} {ns : Str} {c : Content}
    (hs : Serves s c) {r : InstanceRef} {x : Shared} (sum : ExecutionSummary)
    (h : (x.arrive others).cache.get (r.cacheKey ns) (c.get (r.metaKey ns))
      (c.get (r.firstKey ns)) = some sum) :
    loadSummaries cd others s ns [r] x = .ok ([some sum], x.arrive others) := by
  have hm : (c.bulkGet [r.metaKey ns, r.firstKey ns]).lookup (r.metaKey ns) =
      some (c.get (r.metaKey ns)) := lookup_bulkGet (by simp)
  have hf : (c.bulkGet [r.metaKey ns, r.firstKey ns]).lookup (r.firstKey ns) =
      some (c.get (r.firstKey ns)) := lookup_bulkGet (by simp)
  unfold loadSummaries
  rw [if_neg (by simp), hs.bulkGet]
  simp only [List.map_singleton, List.cons_append, List.nil_append, bind, Except.bind, pure,
    Except.pure, loadEach, loadSummary, hm, hf, Option.join_some, h]

/-- An app-id with a NUL in it: the cache serves another instance's summary. -/
theorem missed_nul_app :
    Missed "d".toList ⟨['a', nul, 'b'], "c".toList⟩
      ((newSummaryCache maxCachedSummaries).put (cacheKey "d".toList "a".toList ['b', nul, 'c'])
        cachedOther) := by
  have hget : ((newSummaryCache maxCachedSummaries).put (cacheKey "d".toList "a".toList ['b', nul, 'c'])
      cachedOther).get (cacheKey "d".toList ['a', nul, 'b'] "c".toList) (some lengthOne) none =
        some cachedOther.summary := by decide
  have hfirst : (oneKey "d".toList ⟨['a', nul, 'b'], "c".toList⟩ lengthOne).get
      (InstanceRef.firstKey "d".toList ⟨['a', nul, 'b'], "c".toList⟩) = none := by decide
  refine missed_intro (by decide) ?_ (by decide) [⟨['a', nul, 'b'], "c".toList⟩]
    [['a', nul, 'b', '/', 'c']] (by decide)
    (loadSummaries_hit (serves_storeOf _) cachedOther.summary ?_) (by simp) ?_
  · -- the entry's own instance is not in the store
    intro k e hm r hr hk hrec
    rcases SummaryCache.mem_put hm with ⟨rfl, rfl⟩ | hm
    · obtain ⟨ha, hi⟩ := cacheKey_inj (by decide) hr hk
      have hnone : (oneKey "d".toList ⟨['a', nul, 'b'], "c".toList⟩ lengthOne).get
          (metaKey "d".toList "a".toList ['b', nul, 'c']) = none := by decide
      rw [InstanceRef.metaKey, ← ha, ← hi, hnone] at hrec
      cases hrec
    · exact absurd hm List.not_mem_nil
  · rw [get_oneKey, hfirst]
    exact hget
  · intro row hm
    obtain rfl := Option.some.inj (List.mem_singleton.mp hm)
    decide

/-- **Not every instance the scan sees is listed**: not one without an app-id or an instance-id
    (its key is taken for malformed), nor any in a namespace that holds a delimiter, nor, with
    another instance's entry in the cache, one whose app-id holds a NUL. -/
theorem listAll_incomplete :
    Missed "d".toList ⟨[], "x".toList⟩ (newSummaryCache maxCachedSummaries) ∧
      Missed "d".toList ⟨"p".toList, []⟩ (newSummaryCache maxCachedSummaries) ∧
      Missed "a||b".toList order42 (newSummaryCache maxCachedSummaries) ∧
      Missed "d".toList ⟨['a', nul, 'b'], "c".toList⟩
        ((newSummaryCache maxCachedSummaries).put (cacheKey "d".toList "a".toList ['b', nul, 'c'])
          cachedOther) :=
  ⟨missed_of_parseRef (by decide) (by decide) (by decide),
    missed_of_parseRef (by decide) (by decide) (by decide), missed_delim_ns, missed_nul_app⟩

end DevDashboard.Workflow
