/-
  File:      DevDashboard/Workflow/WalkRows.lean
  Subject:   WHICH ROWS A WALK SHOWS.

  A walk over any keys: some may not be parsed, some may be parsed to instances that the dedup takes
  for one, and the cache may serve what it cannot tell apart. Of a part of the instances the rows
  are known if the rows give away which instances they are of, and if the dedup drops none of them.

  * `refsFromKeys_filter_iff` -- when the dedup drops none of them;
  * `pages_picked` -- **the rows of these instances on a walk** are those of their keys;
  * `pages_spread`, `pages_whole` -- a walk over the keys one by one, and one over all at once.
-/
import DevDashboard.Workflow.Composite
import DevDashboard.Workflow.AppFilter

namespace DevDashboard.Workflow

open Lib StateStore
open Lib.Paging (Pages Takes walkPages)

/-! ## 1. The content decides -/

section Content

variable {cd : Codec} {s s' : StoreReads} {c : Content}

/-- Stores of one content give the same summaries. -/
theorem summaryOf_congr (hs : Serves s c) (hs' : Serves s' c) (ns : Str) :
    summaryOf cd s ns c = summaryOf cd s' ns c := by
  funext r
  unfold summaryOf
  cases hl : historyLength cd (c.get (r.metaKey ns)) with
  | some n => rw [loadWithMeta_eq hs hl, loadWithMeta_eq hs' hl]
  | none =>
      unfold loadWithMeta
      simp only [hl, loadByScan_eq hs, loadByScan_eq hs']

/-- They may show the same rows. -/
theorem shows_congr (hs : Serves s c) (hs' : Serves s' c) (ns : Str) :
    Shows cd s ns c = Shows cd s' ns c := by
  funext r row
  unfold Shows
  rw [summaryOf_congr hs hs' ns]

theorem servedFrom_congr (hs : Serves s c) (hs' : Serves s' c) (ns : Str) (cache : SummaryCache) :
    servedFrom cd s ns c cache = servedFrom cd s' ns c cache := by
  funext r
  unfold servedFrom
  rw [summaryOf_congr hs hs' ns]

end Content

/-! ## 2. The instances of some keys -/

theorem mem_refsOf {ks : List Str} {r : InstanceRef} :
    r ∈ refsOf ks ↔ ∃ k ∈ ks, parseRef k = some r := List.mem_filterMap

theorem refsOf_append (ks ks' : List Str) : refsOf (ks ++ ks') = refsOf ks ++ refsOf ks' :=
  List.filterMap_append ..

/-- No instance of `p` has the dedup key of one that an earlier key is parsed to. -/
def Once (p : InstanceRef → Bool) (ks : List Str) : Prop :=
  (refsOf ks).Pairwise fun r' r => p r = true → r'.dedupKey ≠ r.dedupKey

theorem refsFromKeys_sublist :
    ∀ (ks seen : List Str), List.Sublist (refsFromKeys ks seen).1 (refsOf ks) := by
  intro ks
  induction ks with
  | nil => exact fun _ => List.Sublist.slnil
  | cons k ks ih =>
      intro seen
      rw [refsFromKeys, refsOf]
      cases hk : parseRef k with
      | none =>
          rw [List.filterMap_cons_none hk]
          exact ih seen
      | some r =>
          rw [List.filterMap_cons_some hk]
          simp only
          split
          · exact (ih seen).cons r
          · exact (ih _).cons_cons r

/-- **The dedup drops no instance of `p`**, exactly if each of them has a dedup key of its own, and
    none was seen before. -/
theorem refsFromKeys_filter_iff {p : InstanceRef → Bool} :
    ∀ {ks seen : List Str}, (refsFromKeys ks seen).1.filter p = (refsOf ks).filter p ↔
      Once p ks ∧ ∀ r ∈ refsOf ks, p r = true → r.dedupKey ∉ seen := by
  intro ks
  induction ks with
  | nil => exact fun {_} => ⟨fun _ => ⟨List.Pairwise.nil, by simp [refsOf]⟩, fun _ => rfl⟩
  | cons k ks ih =>
      intro seen
      rw [refsFromKeys, Once]
      cases hk : parseRef k with
      | none =>
          rw [show refsOf (k :: ks) = refsOf ks from List.filterMap_cons_none hk]
          exact ih
      | some r =>
          rw [show refsOf (k :: ks) = r :: refsOf ks from List.filterMap_cons_some hk,
            List.pairwise_cons, List.forall_mem_cons]
          simp only
          by_cases hin : r.dedupKey ∈ seen
          · rw [if_pos hin]
            cases hp : p r with
            | false =>
                rw [List.filter_cons_of_neg (by simp [hp]), ih, Once]
                refine ⟨fun h => ⟨⟨fun r' hr' hp' he => ?_, h.1⟩, by simp, h.2⟩,
                  fun h => ⟨h.1.2, h.2.2⟩⟩
                exact h.2 r' hr' hp' (he ▸ hin)
            | true =>
                -- `r` itself is dropped
                refine iff_of_false (fun he => ?_) fun h => h.2.1 rfl hin
                have hlen := ((refsFromKeys_sublist ks seen).filter p).length_le
                rw [he, List.filter_cons_of_pos hp, List.length_cons] at hlen
                omega
          · rw [if_neg hin]
            have htail : ((r :: (refsFromKeys ks (r.dedupKey :: seen)).1).filter p =
                (r :: refsOf ks).filter p) ↔
                  Once p ks ∧ ∀ r' ∈ refsOf ks, p r' = true → r'.dedupKey ∉ r.dedupKey :: seen := by
              rw [← ih]
              cases hp : p r with
              | false => rw [List.filter_cons_of_neg (by simp [hp]), List.filter_cons_of_neg (by simp [hp])]
              | true => rw [List.filter_cons_of_pos hp, List.filter_cons_of_pos hp, List.cons.injEq,
                  eq_self, true_and]
            rw [htail, Once]
            constructor
            · intro h
              refine ⟨⟨fun r' hr' hp' he => ?_, h.1⟩, fun _ => hin, fun r' hr' hp' hm => ?_⟩
              · exact h.2 r' hr' hp' (he ▸ List.mem_cons_self)
              · exact h.2 r' hr' hp' (List.mem_cons_of_mem _ hm)
            · intro h
              refine ⟨h.1.2, fun r' hr' hp' hm => ?_⟩
              rcases List.mem_cons.mp hm with he | hm
              · exact h.1.1 r' hr' hp' he.symm
              · exact h.2.2 r' hr' hp' hm

theorem Once.of_append {p : InstanceRef → Bool} {ks ks' : List Str} (h : Once p (ks ++ ks')) :
    Once p ks ∧ Once p ks' ∧
      ∀ r ∈ refsOf ks', p r = true → ∀ r' ∈ refsOf ks, r'.dedupKey ≠ r.dedupKey := by
  rw [Once, refsOf_append, List.pairwise_append] at h
  exact ⟨h.1, h.2.1, fun r hr hp r' hr' => h.2.2 r' hr' r hr hp⟩

/-- What the dedup has seen after a page. -/
theorem mem_seen {ks : List Str} {k : Str} :
    ∀ {seen : List Str}, k ∈ (refsFromKeys ks seen).2 →
      k ∈ seen ∨ ∃ r ∈ refsOf ks, r.dedupKey = k := by
  induction ks with
  | nil => exact fun h => .inl h
  | cons k' ks ih =>
      intro seen h
      rw [refsFromKeys] at h
      cases hk : parseRef k' with
      | none =>
          rw [hk] at h
          rw [show refsOf (k' :: ks) = refsOf ks from List.filterMap_cons_none hk]
          exact ih h
      | some r =>
          rw [show refsOf (k' :: ks) = r :: refsOf ks from List.filterMap_cons_some hk]
          simp only [hk] at h
          split at h
          · rcases ih h with hm | ⟨r', hr', he⟩
            · exact .inl hm
            · exact .inr ⟨r', List.mem_cons_of_mem r hr', he⟩
          · rcases ih h with hm | ⟨r', hr', he⟩
            · rcases List.mem_cons.mp hm with rfl | hm
              · exact .inr ⟨r, List.mem_cons_self, rfl⟩
              · exact .inl hm
            · exact .inr ⟨r', List.mem_cons_of_mem r hr', he⟩

/-! ## 3. The rows that are picked -/

/-- `sel` picks, of the rows that may be shown for the instances of some keys, those of the
    instances of `p`, and each of these is the instance's own. -/
def Picks (cd : Codec) (ns : Str) (c : Content) (p : InstanceRef → Bool)
    (sel : ExecutionSummary → Bool) (ks : List Str) : Prop :=
  ∀ r ∈ refsOf ks, ∀ row, Shows cd (storeOf c) ns c r row →
    sel row = p r ∧ (p r = true → summaryOf cd (storeOf c) ns c r = some row)

/-- The rows of the instances of `p` among some keys. -/
def pickedRows (cd : Codec) (toLower : Str → Str) (ns : Str) (c : Content) (q : ListQuery)
    (p : InstanceRef → Bool) (ks : List Str) : List ExecutionSummary :=
  rowsOf cd toLower (storeOf c) ns c q ((refsOf ks).filter p)

section Picked

variable {cd : Codec} {toLower : Str → Str} {others : Others} {s : StoreReads} {ns : Str}
  {c : Content} {q : ListQuery} {p : InstanceRef → Bool} {sel : ExecutionSummary → Bool}

theorem rowsOf_append (refs refs' : List InstanceRef) :
    rowsOf cd toLower s ns c q (refs ++ refs') =
      rowsOf cd toLower s ns c q refs ++ rowsOf cd toLower s ns c q refs' := by
  rw [rowsOf, List.map_append, accepted_append]
  rfl

theorem pickedRows_append (ks ks' : List Str) :
    pickedRows cd toLower ns c q p (ks ++ ks') =
      pickedRows cd toLower ns c q p ks ++ pickedRows cd toLower ns c q p ks' := by
  simp only [pickedRows, refsOf_append, List.filter_append, rowsOf_append]

/-- Instances that the dedup does not drop have a row each. -/
theorem nodup_pickedRows {ks : List Str} (h : Once p ks) :
    ((pickedRows cd toLower ns c q p ks).map rowRef).Nodup := by
  refine nodup_rowsOf ((h.filter p).imp_of_mem ?_)
  intro r' r _ hr hne he
  exact hne (List.mem_filter.mp hr).2 (he ▸ rfl)

/-- What is picked of one result. -/
theorem accepted_one {r : InstanceRef} {o : Option ExecutionSummary}
    (h : ∀ row, Shows cd s ns c r row →
      sel row = p r ∧ (p r = true → summaryOf cd s ns c r = some row))
    (ho : Allowed cd s ns c (Shows cd s ns c) r o) :
    (accepted toLower q [o]).filter sel = rowsOf cd toLower s ns c q ([r].filter p) := by
  cases o with
  | none =>
      cases hp : p r with
      | false => simp [accepted, rowsOf, hp]
      | true => simp [accepted, rowsOf, hp, ho.2 rfl]
  | some row =>
      obtain ⟨hsel, hown⟩ := h row (ho.1 row rfl)
      cases hp : p r with
      | false =>
          have hno : ∀ row' ∈ accepted toLower q [some row], ¬ sel row' = true := by
            intro row' hrow'
            obtain rfl := Option.some.inj (List.mem_singleton.mp (mem_accepted.mp hrow').1)
            simp [hsel, hp]
          rw [List.filter_eq_nil_iff.mpr hno, List.filter_cons_of_neg (by simp [hp])]
          rfl
      | true =>
          have hall : ∀ row' ∈ accepted toLower q [some row], sel row' = true := by
            intro row' hrow'
            obtain rfl := Option.some.inj (List.mem_singleton.mp (mem_accepted.mp hrow').1)
            rw [hsel, hp]
          rw [List.filter_eq_self.mpr hall, List.filter_cons_of_pos hp, List.filter_nil, rowsOf,
            List.map_singleton, hown hp]

/-- **What is picked of the results of a call** are the rows of the instances of `p`. -/
theorem accepted_picked {refs : List InstanceRef} {results : List (Option ExecutionSummary)}
    (hrows : List.Forall₂ (Allowed cd s ns c (Shows cd s ns c)) refs results)
    (h : ∀ r ∈ refs, ∀ row, Shows cd s ns c r row →
      sel row = p r ∧ (p r = true → summaryOf cd s ns c r = some row)) :
    (accepted toLower q results).filter sel = rowsOf cd toLower s ns c q (refs.filter p) := by
  induction hrows with
  | nil => rfl
  | @cons r o refs results ho _ ih =>
      obtain ⟨h₀, h⟩ := List.forall_mem_cons.mp h
      rw [← List.singleton_append, accepted_append, List.filter_append, accepted_one h₀ ho, ih h,
        ← rowsOf_append, ← List.filter_append, List.singleton_append]

variable
  (hothers : ∀ n cache, Honest cd s ns c cache → Honest cd s ns c (others n cache))
  (hs : Serves s c)

include hothers hs

/-- One round of the loop. -/
theorem loadSummaries_picked {ks seen : List Str} (hpick : Picks cd ns c p sel ks)
    (honce : Once p ks) (hseen : ∀ r ∈ refsOf ks, p r = true → r.dedupKey ∉ seen) {x : Shared}
    (hx : Honest cd s ns c x.cache) :
    ∃ results x', loadSummaries cd others s ns (refsFromKeys ks seen).1 x = .ok (results, x') ∧
      (accepted toLower q results).filter sel = pickedRows cd toLower ns c q p ks ∧
      (accepted toLower q results).length ≤ ks.length ∧ Honest cd s ns c x'.cache := by
  obtain ⟨results, x', hload, hrows, hx'⟩ :=
    loadSummaries_serving (fun _ _ h => h) hothers hs hx
  unfold Allowed at hrows
  rw [shows_congr hs (serves_storeOf c), summaryOf_congr hs (serves_storeOf c)] at hrows
  have hsub := refsFromKeys_sublist ks seen
  refine ⟨results, x', hload, ?_, ?_, hx'⟩
  · rw [accepted_picked hrows fun r hr => hpick r (hsub.subset hr), pickedRows,
      refsFromKeys_filter_iff.mpr ⟨honce, hseen⟩]
  · calc (accepted toLower q results).length
        ≤ results.length := length_accepted_le _
      _ = (refsFromKeys ks seen).1.length := hrows.length_eq.symm
      _ ≤ (refsOf ks).length := hsub.length_le
      _ ≤ ks.length := List.length_filterMap_le _ _

/-- **The loop of one call**: what is picked of its items are the rows of the pages it takes. -/
theorem listLoop_picked {tok : Str} {pages : List (List Str)}
    (hpages : Pages [] (scan s ns q) tok pages) (hpick : Picks cd ns c p sel pages.flatten)
    (honce : Once p pages.flatten) {fuel : Nat} (hfuel : pages.length ≤ fuel) {scanned : Int}
    {seen : List Str} (hseen : ∀ r ∈ refsOf pages.flatten, p r = true → r.dedupKey ∉ seen)
    {items : List ExecutionSummary} {x : Shared} (hx : Honest cd s ns c x.cache) :
    ∃ used rest r x', pages = used ++ rest ∧ used ≠ [] ∧
      listLoop cd others s ns toLower q fuel tok scanned seen items x = some (.ok (r, x')) ∧
      r.items.filter sel = items.filter sel ++ pickedRows cd toLower ns c q p used.flatten ∧
      Honest cd s ns c x'.cache ∧
      ((r.nextToken = [] ∧ rest = []) ∨
        (r.nextToken ≠ [] ∧ Pages [] (scan s ns q) r.nextToken rest)) ∧
      (q.filtered = false → ∃ ks, used = [ks] ∧ r.items.length ≤ items.length + ks.length) := by
  induction hpages generalizing fuel scanned seen items x with
  | @last tok ks hread =>
      obtain ⟨fuel, rfl⟩ := Nat.exists_eq_add_one_of_ne_zero
        (show fuel ≠ 0 from fun h => by simp [h] at hfuel)
      rw [List.flatten_singleton] at hpick honce hseen
      obtain ⟨results, x', hload, hrows, hlen, hx'⟩ :=
        @loadSummaries_picked cd toLower _ _ _ _ q _ _ hothers hs _ _ hpick honce hseen _ hx
      refine ⟨[ks], [], ⟨items ++ accepted toLower q results, []⟩, x', rfl, by simp, ?_, ?_, hx',
        .inl ⟨rfl, rfl⟩, fun _ => ⟨ks, rfl, ?_⟩⟩
      · rw [listLoop, show metaKeys s ns q.appID tok _ = _ from hread]
        simp only [hload]
        rw [if_pos (by simp [ListQuery.stops])]
      · rw [List.filter_append, hrows, List.flatten_singleton]
      · rw [List.length_append]
        omega
  | @more tok next ks rest hread hne hrest ih =>
      obtain ⟨fuel, rfl⟩ := Nat.exists_eq_add_one_of_ne_zero
        (show fuel ≠ 0 from fun h => by simp [h] at hfuel)
      rw [List.flatten_cons] at hpick honce hseen
      obtain ⟨honceₖ, honceᵣ, hapart⟩ := honce.of_append
      rw [refsOf_append, List.forall_mem_append] at hseen
      have hpickₖ : Picks cd ns c p sel ks := fun r hr =>
        hpick r (by rw [refsOf_append]; exact List.mem_append_left _ hr)
      have hpickᵣ : Picks cd ns c p sel rest.flatten := fun r hr =>
        hpick r (by rw [refsOf_append]; exact List.mem_append_right _ hr)
      obtain ⟨results, x', hload, hrows, hlen, hx'⟩ :=
        @loadSummaries_picked cd toLower _ _ _ _ q _ _ hothers hs _ _ hpickₖ honceₖ hseen.1 _ hx
      rw [listLoop, show metaKeys s ns q.appID tok _ = _ from hread]
      simp only [hload]
      split
      · refine ⟨[ks], rest, _, x', rfl, by simp, rfl, ?_, hx', .inr ⟨hne, hrest⟩,
          fun _ => ⟨ks, rfl, ?_⟩⟩
        · rw [List.filter_append, hrows, List.flatten_singleton]
        · rw [List.length_append]
          omega
      · rename_i hstop
        -- the next page: what it brings is new to `seen`
        have hseen' : ∀ r ∈ refsOf rest.flatten, p r = true →
            r.dedupKey ∉ (refsFromKeys ks seen).2 := by
          intro r hr hp hm
          rcases mem_seen hm with hm | ⟨r', hr', he⟩
          · exact hseen.2 r hr hp hm
          · exact hapart r hr hp r' hr' he
        obtain ⟨used, rest', r, x'', rfl, -, hl, hr, hx'', hn, -⟩ :=
          ih hpickᵣ honceᵣ (by simpa using hfuel) hseen' hx'
        refine ⟨ks :: used, rest', r, x'', rfl, by simp, hl, ?_, hx'', hn, fun hq => ?_⟩
        · rw [hr, List.filter_append, hrows, List.flatten_cons, pickedRows_append,
            List.append_assoc]
        · simp [ListQuery.stops, hq] at hstop

omit hothers in
/-- A call over some pages. -/
theorem list_picked {svc : Service} (hstore : svc.store = some s)
    (hothers : ∀ n cache, Honest cd s (svc.effectiveNS q.appID) c cache →
      Honest cd s (svc.effectiveNS q.appID) c (others n cache)) {tok : Str}
    {pages : List (List Str)} {fuel : Nat} {x : Shared}
    (hpages : Pages [] (scan s (svc.effectiveNS q.appID) q) tok pages)
    (hfuel : pages.length ≤ fuel)
    (hpick : Picks cd (svc.effectiveNS q.appID) c p sel pages.flatten)
    (honce : Once p pages.flatten)
    (hlen : ∀ page ∈ pages, page.length ≤ q.effectivePageSize.toNat)
    (hx : Honest cd s (svc.effectiveNS q.appID) c x.cache) :
    Takes [] (scan s (svc.effectiveNS q.appID) q)
      (pickedRows cd toLower (svc.effectiveNS q.appID) c q p) (List.filter sel) (fun _ => True)
      (fun x => Honest cd s (svc.effectiveNS q.appID) c x.cache) pages
      (pageCall (svc.list cd toLower others fuel) q tok x) := by
  obtain ⟨used, rest, r, x', rfl, hne, hloop, hrows, hx', hrest, hone⟩ :=
    @listLoop_picked cd toLower _ _ _ _ { q with pageToken := tok } _ _ hothers hs _ _ hpages hpick
      honce _ hfuel 0 [] (fun _ _ _ => List.not_mem_nil) [] _ hx
  have hpage : q.filtered = false → r.items.length ≤ q.effectivePageSize.toNat := by
    intro hf
    obtain ⟨ks, rfl, hks⟩ := hone hf
    exact hks.trans ((Nat.zero_add _).trans_le (hlen ks (by simp)))
  obtain ⟨hperm, hnext⟩ := finishPage_perm (q := { q with pageToken := tok }) (r := r) hpage
  have hlist : svc.list cd toLower others fuel { q with pageToken := tok } x =
      some (.ok (finishPage { q with pageToken := tok } r, x')) := by
    unfold Service.list
    simp only [hstore]
    rw [hloop]
  refine ⟨used, rest, _, r.nextToken, x', rfl, hne, pageCall_ok.mpr ⟨_, hlist, rfl, hnext⟩, ?_,
    trivial, hx', hrest⟩
  exact (hperm.filter sel).trans (List.Perm.of_eq hrows)

omit hothers in
/-- **What is picked of a walk** are the rows of the instances of `p` in the scan. -/
theorem pages_picked {svc : Service} (hstore : svc.store = some s) (hcur : Cursor s c)
    (hothers : ∀ n cache, Honest cd s (svc.effectiveNS q.appID) c cache →
      Honest cd s (svc.effectiveNS q.appID) c (others n cache))
    (hpick : Picks cd (svc.effectiveNS q.appID) c p sel
      (c.keysLike (metaPattern (svc.effectiveNS q.appID) q.appID)))
    (honce : Once p (c.keysLike (metaPattern (svc.effectiveNS q.appID) q.appID))) {x : Shared}
    (hx : Honest cd s (svc.effectiveNS q.appID) c x.cache) :
    ∃ N, ∀ fuel ≥ N, ∃ pages,
      pagesOf (svc.list cd toLower others fuel) fuel q x = some (.ok pages) ∧
      (pages.flatten.filter sel).Perm (pickedRows cd toLower (svc.effectiveNS q.appID) c q p
        (c.keysLike (metaPattern (svc.effectiveNS q.appID) q.appID))) := by
  have hpos : 0 < q.effectivePageSize.toNat := by
    have := effectivePageSize_pos q
    omega
  obtain ⟨pages, hpages, hlen, hflat⟩ :=
    hcur (metaPattern (svc.effectiveNS q.appID) q.appID) _ hpos
  rw [← hflat] at hpick honce ⊢
  refine ⟨pages.length, fun fuel hfuel => ?_⟩
  let P : List (List Str) → Prop := fun pages =>
    Picks cd (svc.effectiveNS q.appID) c p sel pages.flatten ∧ Once p pages.flatten ∧
      ∀ page ∈ pages, page.length ≤ q.effectivePageSize.toNat
  have hP : ∀ a b, P (a ++ b) → P b := by
    intro a b h
    obtain ⟨hpick, honce, hlen⟩ := h
    rw [List.flatten_append] at hpick honce
    refine ⟨fun r hr => hpick r ?_, honce.of_append.2.1,
      fun page hpage => hlen page (List.mem_append_right a hpage)⟩
    rw [refsOf_append]
    exact List.mem_append_right _ hr
  obtain ⟨answers, hw, hperm, -⟩ := Paging.walkPages_perm (pickedRows_append (q := q)) (P := P)
    (fun a b => List.filter_append a b) hP
    (fun tok pages x hpages hm hP hx =>
      list_picked hs hstore hothers hpages hm hP.1 hP.2.1 hP.2.2 hx)
    fuel [] pages x hpages hfuel hfuel ⟨hpick, honce, hlen⟩ hx
  exact ⟨answers, hw, hperm⟩

end Picked

/-! ## 4. Dapr's own keys -/

section Own

variable {cd : Codec} {toLower : Str → Str} {others : Others} {s : StoreReads} {ns : Str}
  {c : Content} {q : ListQuery}

/-- The dedup drops none of them, and what may be shown for one is its own row. -/
theorem ownKeys_once {app : Str} (hns : ¬ keyDelimiter <:+: ns) (h : OwnKeys ns c app)
    {pattern : Str} (hkeys : ∀ k ∈ c.keysLike pattern, ∃ r, Proper r ∧ k = r.metaKey ns) :
    (refsFromKeys (c.keysLike pattern) []).1 = refsOf (c.keysLike pattern) ∧
      (∀ p, Once p (c.keysLike pattern)) ∧
      ∀ r ∈ refsOf (c.keysLike pattern), Proper r ∧ ∀ row, Shows cd (storeOf c) ns c r row →
        summaryOf cd (storeOf c) ns c r = some row := by
  have hproper : ProperKeys ns (c.keysLike pattern) :=
    ProperKeys.of_forall (c.nodup.sublist List.filter_sublist) hkeys
  obtain ⟨refs, hrefs, hnd, hp⟩ := hproper
  have hdedup : (refsFromKeys (c.keysLike pattern) []).1 = refsOf (c.keysLike pattern) := by
    rw [hrefs, refsFromKeys_metaKeys hns hp hnd fun _ _ => List.not_mem_nil, refsOf_metaKeys hns hp]
  refine ⟨hdedup, fun p => (refsFromKeys_filter_iff.mp (congrArg (List.filter p) hdedup)).1,
    fun r hr => ?_⟩
  rw [hrefs, refsOf_metaKeys hns hp] at hr
  exact ⟨hp r hr, fun row hshow => h.summaryOf (hp r hr) hshow⟩

/-- **Over Dapr's own keys** the rows of the store's walk are of different instances, so the
    composite walk shows each instance once exactly if the store's rows it shows are of none that a
    sidecar holds. -/
theorem composite_once_of_own {svc : Service} (hstore : svc.store = some s) (hs : Serves s c)
    (hcur : Cursor s c) (sc : SidecarService) (hq : q.appID = [])
    (hns : ¬ keyDelimiter <:+: svc.effectiveNS q.appID)
    (hkeys : OwnKeys (svc.effectiveNS q.appID) c [])
    (hothers : ∀ n cache, Honest cd s (svc.effectiveNS q.appID) c cache →
      Honest cd s (svc.effectiveNS q.appID) c (others n cache)) {x : Shared}
    (hx : Honest cd s (svc.effectiveNS q.appID) c x.cache) :
    ∃ N, ∀ fuel ≥ N, ∃ pages shown,
      pagesOf (svc.list cd toLower others fuel) fuel q x = some (.ok pages) ∧
      pagesOf (compositeList toLower sc (svc.list cd toLower others fuel)) fuel q x =
        some (.ok shown) ∧
      (ShownOnce sc shown.flatten ↔
        ∀ row ∈ keptRows (sidecarRows toLower sc q) pages, ∀ h ∈ sc.held, rowRef h ≠ rowRef row) := by
  have hall : ∀ k ∈ c.keysLike (metaPattern (svc.effectiveNS q.appID) q.appID),
      ∃ r, Proper r ∧ k = r.metaKey (svc.effectiveNS q.appID) := by
    rw [hq] at hkeys ⊢
    exact hkeys.all
  obtain ⟨-, honce, hrefs⟩ := @ownKeys_once cd _ c [] hns hkeys _ hall
  let p : InstanceRef → Bool := fun r =>
    (summaryOf cd (storeOf c) (svc.effectiveNS q.appID) c r).isSome
  have hpick : Picks cd (svc.effectiveNS q.appID) c p (fun _ => true)
      (c.keysLike (metaPattern (svc.effectiveNS q.appID) q.appID)) := by
    intro r hr row hshow
    have hsum := (hrefs r hr).2 row hshow
    exact ⟨by simp [p, hsum], fun _ => hsum⟩
  obtain ⟨N, hN⟩ := @pages_picked cd toLower _ _ c q _ _ hs _ hstore hcur hothers hpick (honce p) x hx
  obtain ⟨M, hM⟩ := @composite_once_iff cd toLower others _ _ q _ hstore hs hcur sc hq x
  refine ⟨N + M, fun fuel hfuel => ?_⟩
  obtain ⟨pages, hpages, hperm⟩ := hN fuel (by omega)
  obtain ⟨pages', shown, hpages', hshown, hiff⟩ := hM fuel (by omega)
  obtain rfl := Except.ok.inj (Option.some.inj (hpages.symm.trans hpages'))
  refine ⟨pages, shown, hpages, hshown, hiff.trans ⟨fun h => h.notHeld, fun h => ⟨?_, h⟩⟩⟩
  rw [List.filter_true] at hperm
  have hnd : (pages.flatten.map rowRef).Nodup :=
    (hperm.map _).nodup_iff.mpr (nodup_pickedRows (honce p))
  exact hnd.sublist ((keptRows_sublist _ _).map rowRef)

end Own

/-! ## 5. Walks with one cache -/

/-- What a call without a filter shows of a page, if each access finds the same cache. -/
def servedRows (cd : Codec) (ns : Str) (c : Content) (cache : SummaryCache) (ks : List Str) :
    List ExecutionSummary :=
  (refsFromKeys ks []).1.filterMap (servedFrom cd (storeOf c) ns c cache)

/-- What it shows of the keys one by one. -/
def servedAll (cd : Codec) (ns : Str) (c : Content) (cache : SummaryCache) (ks : List Str) :
    List ExecutionSummary := (refsOf ks).filterMap (servedFrom cd (storeOf c) ns c cache)

section Served

variable {cd : Codec} {toLower : Str → Str} {s : StoreReads} {c : Content} {q : ListQuery}

theorem matches_of_unfiltered (hq : q.filtered = false) (row : ExecutionSummary) :
    matchesQuery toLower row q = true := by
  unfold ListQuery.filtered at hq
  simp only [Bool.or_eq_false_iff, decide_eq_false_iff_not, not_not, Bool.not_eq_false'] at hq
  simp [matchesQuery, hq.1.1, hq.1.2, hq.2]

theorem accepted_of_unfiltered (hq : q.filtered = false) (results : List (Option ExecutionSummary)) :
    accepted toLower q results = results.filterMap id :=
  List.filter_eq_self.mpr fun row _ => matches_of_unfiltered hq row

theorem length_servedRows_le {ns : Str} {cache : SummaryCache} (ks : List Str) :
    (servedRows cd ns c cache ks).length ≤ ks.length :=
  calc (servedRows cd ns c cache ks).length
      ≤ (refsFromKeys ks []).1.length := List.length_filterMap_le _ _
    _ ≤ (refsOf ks).length := (refsFromKeys_sublist ks []).length_le
    _ ≤ ks.length := List.length_filterMap_le _ _

/-- **A walk without a filter, page for page.** -/
theorem pages_resetTo {svc : Service} (hstore : svc.store = some s) (hs : Serves s c)
    (hq : q.filtered = false) (cache : SummaryCache) {pages : List (List Str)}
    (hpages : Pages [] (scan s (svc.effectiveNS q.appID) q) [] pages)
    (hlen : ∀ page ∈ pages, page.length ≤ q.effectivePageSize.toNat) {fuel : Nat}
    (hfuel : pages.length ≤ fuel) (x : Shared) :
    ∃ answers, pagesOf (svc.list cd toLower (resetTo cache) fuel) fuel q x = some (.ok answers) ∧
      List.Forall₂ (fun items ks =>
        items.Perm (servedRows cd (svc.effectiveNS q.appID) c cache ks)) answers pages := by
  obtain ⟨n, rfl⟩ := Nat.exists_eq_add_one_of_ne_zero
    (show fuel ≠ 0 by rintro rfl; cases hpages <;> exact absurd hfuel (by simp))
  refine Paging.walkPages_each (P := fun ks => ks.length ≤ q.effectivePageSize.toNat)
    (fun tok ks next x hread hks => ?_) (n + 1) [] pages x hpages hlen hfuel
  obtain ⟨x', hload⟩ := @loadSummaries_resetTo cd s c hs (svc.effectiveNS q.appID) cache
    (refsFromKeys ks []).1 x
  have hlist := @list_oneRound cd toLower _ _ _ _ hstore { q with pageToken := tok } rfl _ _ _ _ _
    _ _ hread rfl hload (fun _ => by simp [ListQuery.stops, show
      ({ q with pageToken := tok } : ListQuery).filtered = false from hq]) n
  have hacc : accepted toLower { q with pageToken := tok } ((refsFromKeys ks []).1.map
      (servedFrom cd s (svc.effectiveNS q.appID) c cache)) =
        servedRows cd (svc.effectiveNS q.appID) c cache ks := by
    rw [accepted_of_unfiltered (q := { q with pageToken := tok }) hq, servedRows,
      List.filterMap_map, servedFrom_congr hs (serves_storeOf c)]
    rfl
  rw [hacc] at hlist
  obtain ⟨hperm, hnext⟩ := finishPage_perm (q := { q with pageToken := tok })
    (r := ⟨servedRows cd (svc.effectiveNS q.appID) c cache ks, next⟩)
    fun _ => (length_servedRows_le ks).trans hks
  exact ⟨_, x', pageCall_ok.mpr ⟨_, hlist, rfl, hnext⟩, hperm⟩

/-! ## 6. One key a page, all keys on one page -/

/-- The service over another store. -/
def Service.over (svc : Service) (s : StoreReads) : Service := { svc with store := some s }

/-- A store whose first page has no key, and whose other pages have one key each. -/
def spreadStore (c : Content) : StoreReads where
  keys pattern tok pageSize :=
    if pageSize = 0 then .ok (c.keysLike pattern, [])
    else Paging.afterEmpty (fun tok => .ok (Paging.cut (c.keysLike pattern) 1 tok)) tok
  get k := .ok (c.get k)
  bulkGet ks := .ok (c.bulkGet ks)

theorem serves_spreadStore (c : Content) : Serves (spreadStore c) c :=
  ⟨fun _ => ⟨[], rfl⟩, fun _ => rfl, fun _ => rfl⟩

/-- The pages of a scan of that store. -/
theorem pages_spreadStore (c : Content) (pattern : Str) {pageSize : Nat} (hpos : 0 < pageSize) :
    ∃ pages, Pages [] (fun tok => (spreadStore c).keys pattern tok pageSize) [] ([] :: pages) ∧
      (∀ page ∈ pages, page.length ≤ 1) ∧ pages.flatten = c.keysLike pattern := by
  obtain ⟨pages, hpages, hlen, hflat⟩ :=
    @Paging.pages_cut LoadError _ (c.keysLike pattern) 1 Nat.zero_lt_one
  refine ⟨pages, ?_, hlen, hflat⟩
  have hread : (fun tok => (spreadStore c).keys pattern tok pageSize) =
      Paging.afterEmpty fun tok => .ok (Paging.cut (c.keysLike pattern) 1 tok) := by
    simp only [spreadStore, if_neg hpos.ne']
  rw [hread]
  exact Paging.pages_afterEmpty hpages

theorem cursor_spreadStore (c : Content) : Cursor (spreadStore c) c := by
  intro pattern pageSize hpos
  obtain ⟨pages, hpages, hlen, hflat⟩ := pages_spreadStore c pattern hpos
  exact ⟨[] :: pages, hpages, List.forall_mem_cons.mpr ⟨Nat.zero_le _, fun page hpage =>
    (hlen page hpage).trans hpos⟩, hflat⟩

/-- On a page of one key the dedup has nothing to drop. -/
theorem servedRows_short {ns : Str} {cache : SummaryCache} {ks : List Str} (h : ks.length ≤ 1) :
    servedRows cd ns c cache ks = servedAll cd ns c cache ks := by
  have hrefs : (refsFromKeys ks []).1 = refsOf ks := by
    cases ks with
    | nil => rfl
    | cons k ks =>
        obtain rfl : ks = [] := List.length_eq_zero_iff.mp (by simpa using h)
        rw [refsFromKeys]
        cases hk : parseRef k with
        | none =>
            rw [refsOf, List.filterMap_cons_none hk]
            rfl
        | some r =>
            rw [refsOf, List.filterMap_cons_some hk]
            rfl
  rw [servedRows, hrefs, servedAll]

theorem flatten_perm {ns : Str} {cache : SummaryCache} {answers : List (List ExecutionSummary)}
    {pages : List (List Str)} (hlen : ∀ page ∈ pages, page.length ≤ 1)
    (h : List.Forall₂ (fun items ks => items.Perm (servedRows cd ns c cache ks)) answers pages) :
    answers.flatten.Perm (servedAll cd ns c cache pages.flatten) := by
  induction h with
  | nil => exact List.Perm.nil
  | @cons items ks answers pages hks _ ih =>
      obtain ⟨hlenₖ, hlen⟩ := List.forall_mem_cons.mp hlen
      rw [List.flatten_cons, List.flatten_cons, servedAll, refsOf_append, List.filterMap_append]
      rw [servedRows_short hlenₖ] at hks
      exact hks.append (ih hlen)

variable {svc : Service} (hq : q.filtered = false) (cache : SummaryCache) (x : Shared)

include hq

/-- **A walk over the keys one by one** shows what each of them may show. -/
theorem pages_spread :
    ∃ N, ∀ fuel ≥ N, ∃ pages,
      pagesOf ((svc.over (spreadStore c)).list cd toLower (resetTo cache) fuel) fuel q x =
        some (.ok pages) ∧
      ∃ rest, pages = [] :: rest ∧ rest.flatten.Perm (servedAll cd (svc.effectiveNS q.appID) c cache
        (c.keysLike (metaPattern (svc.effectiveNS q.appID) q.appID))) := by
  have hpos : 0 < q.effectivePageSize.toNat := by
    have := effectivePageSize_pos q
    omega
  obtain ⟨pages, hpages, hlen, hflat⟩ :=
    pages_spreadStore c (metaPattern (svc.effectiveNS q.appID) q.appID) hpos
  refine ⟨([] :: pages).length, fun fuel hfuel => ?_⟩
  obtain ⟨answers, hw, hall⟩ := @pages_resetTo cd toLower _ _ _ (svc.over (spreadStore c)) rfl
    (serves_spreadStore c) hq cache _ hpages (List.forall_mem_cons.mpr ⟨Nat.zero_le _,
      fun page hpage => (hlen page hpage).trans hpos⟩) _ hfuel x
  cases hall with
  | @cons items _ answers _ hnil hall =>
      obtain rfl : items = [] := hnil.eq_nil
      refine ⟨_, hw, answers, rfl, ?_⟩
      rw [← hflat]
      exact flatten_perm hlen hall

/-- **A walk of one page** shows what the dedup leaves. -/
theorem pages_whole (hlen : (c.keysLike (metaPattern (svc.effectiveNS q.appID) q.appID)).length ≤
      q.effectivePageSize.toNat) :
    ∃ N, ∀ fuel ≥ N, ∃ pages,
      pagesOf ((svc.over (pageStore c)).list cd toLower (resetTo cache) fuel) fuel q x =
        some (.ok pages) ∧
      ∃ items, pages = [items] ∧ items.Perm (servedRows cd (svc.effectiveNS q.appID) c cache
        (c.keysLike (metaPattern (svc.effectiveNS q.appID) q.appID))) := by
  have hpos : q.effectivePageSize.toNat ≠ 0 := by
    have := effectivePageSize_pos q
    omega
  have hpages : Pages [] (scan (pageStore c) ((svc.over (pageStore c)).effectiveNS q.appID) q) []
      [c.keysLike (metaPattern (svc.effectiveNS q.appID) q.appID)] := by
    refine .last ?_
    have hcut : Paging.cut (c.keysLike (metaPattern (svc.effectiveNS q.appID) q.appID))
        q.effectivePageSize.toNat [] =
          (c.keysLike (metaPattern (svc.effectiveNS q.appID) q.appID), []) := by
      rw [Paging.cut, List.length_nil, List.drop_zero, List.take_of_length_le hlen,
        if_neg (by omega)]
    show (if q.effectivePageSize.toNat = 0 then _ else _) = _
    rw [if_neg hpos]
    exact congrArg Except.ok hcut
  refine ⟨1, fun fuel hfuel => ?_⟩
  obtain ⟨answers, hw, hall⟩ := @pages_resetTo cd toLower _ _ _ (svc.over (pageStore c)) rfl
    (serves_pageStore c) hq cache _ hpages (by simpa using hlen) _ hfuel x
  cases hall with
  | @cons items _ answers _ hperm hall =>
      cases hall
      exact ⟨_, hw, items, rfl, hperm⟩

end Served

end DevDashboard.Workflow
