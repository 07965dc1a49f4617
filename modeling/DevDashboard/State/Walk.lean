/-
  File:      DevDashboard/State/Walk.lean
  Subject:   FOLLOWING THE TOKENS OF THE RECORD LIST, and the app dropdown beside it
             (`pkg/state/service.go`: `List`, `AppIDs`).

  * `listPages_rows` -- what a client gets that follows the tokens;
  * `listPages_complete` -- every record that the query asks for, once, on sorted pages;
  * `appIDs_iff_rows` -- the dropdown offers a prefix exactly if the list under it has rows and
    all of them are of that prefix.
-/
import DevDashboard.State.Service

namespace DevDashboard.State

open Lib StateStore Paging
open Workflow (sortStrings sortStrings_perm)
open Url (Octets utf8)

/-! ## 1. A store nobody writes to -/

/-- The cursor splits the keys that match a pattern into consecutive pages of at most the page
    size, in an order of its own. -/
def Cursor (s : Store) (c : Content) : Prop :=
  ∀ pattern (pageSize : Int), 0 < pageSize →
    ∃ pages, Pages [] (fun tok => s.keys pattern tok pageSize) [] pages ∧
      (∀ p ∈ pages, (p.length : Int) ≤ pageSize) ∧ pages.flatten.Perm (c.keysLike pattern)

/-- The bulk read returns every key that exists. -/
def ReadsAll (records : List Str → Except StateError (List Record)) (c : Content) : Prop :=
  ∀ ks, ∃ recs, records ks = .ok recs ∧ ∀ k ∈ ks, k ∈ c.keys → ∃ r ∈ recs, r.key = k

/-- The service is over a store that holds `c`. -/
structure Over (svc : Service) (c : Content) : Prop where
  exists_ready : ∃ s records, svc.ready = .ok (s, records) ∧ Cursor s c ∧ ReadsAll records c

/-- `ccStore.Records` returns every key that exists, if the backend answers a bulk read with the
    value of each. -/
theorem readsAll_ccRecords {parseTime : Str → Option Workflow.Time}
    {bulkGet : List Str → Except StateError (List BulkGetResponse)} {c : Content}
    (h : ∀ ks, ∃ resp, bulkGet ks = .ok resp ∧ ∀ k ∈ ks, k ∈ c.keys →
      ∃ r ∈ resp, r.key = k ∧ r.error = [] ∧ r.data = c.get k) :
    ReadsAll (ccRecords parseTime bulkGet) c := by
  intro ks
  by_cases hks : ks = []
  · exact ⟨[], by rw [ccRecords, if_pos hks], fun k hk => absurd hk (by simp [hks])⟩
  · obtain ⟨resp, hb, hall⟩ := h ks
    refine ⟨recordsFromBulk parseTime resp, by rw [ccRecords, if_neg hks, hb]; rfl, ?_⟩
    intro k hk hmem
    obtain ⟨r, hr, hkey, herr, hdata⟩ := hall k hk hmem
    have hsome : r.data.isNone = false := by
      rw [hdata, Option.isNone_eq_false_iff, Option.isSome_iff_ne_none]
      exact fun hn => Content.get_eq_none_iff.mp hn hmem
    refine ⟨_, List.mem_map.mpr ⟨r, List.mem_filter.mpr ⟨hr, ?_⟩, rfl⟩, hkey⟩
    simp [herr, hsome]

/-! ## 2. The walk -/

/-- One call of a client that follows the tokens. -/
def Service.call (svc : Service) (fuel : Nat) (q : ListQuery) (tok : Str) (_ : Unit) :
    Option (Except StateError (List Item × Str × Unit)) :=
  match svc.list fuel { q with pageToken := tok } with
  | none => none
  | some (.error e) => some (.error e)
  | some (.ok r) => some (.ok (r.items, r.nextToken, ()))

/-- The pages that a client gets from `""` on. -/
def Service.listPages (svc : Service) (fuel : Nat) (q : ListQuery) :
    Option (Except StateError (List (List Item))) :=
  walkPages [] (svc.call fuel q) fuel [] ()

section Walk

variable {svc : Service} {s : Store} {records : List Str → Except StateError (List Record)}
  {c : Content} (hready : svc.ready = .ok (s, records)) (hreads : ReadsAll records c)
include hready hreads

/-- One call takes whole key pages and answers with the rows of what passes. -/
theorem call_takes (q : ListQuery) {tok : Str} {pages : List (List Str)} {fuel : Nat}
    (hpages : Pages [] (fun tok => s.keys (listPattern q.appID q.search) tok q.effectivePageSize)
      tok pages) (hfuel : pages.length ≤ fuel)
    (hkeys : pages.flatten.Nodup ∧ ∀ k ∈ pages.flatten, k ∈ c.keys) :
    Takes [] (fun tok => s.keys (listPattern q.appID q.search) tok q.effectivePageSize)
      (passing q.includeInternal) (List.map Item.key)
      (fun page => ∃ matched recs, page = itemsOf matched recs) (fun _ => True) pages
      (svc.call fuel q tok ()) := by
  obtain ⟨used, rest, next, hsplit, hne, hloop, hend⟩ :=
    @listLoop_consumes s { q with pageToken := tok } tok pages hpages [] hkeys.1 fuel hfuel 0
  rw [List.nil_append] at hloop
  obtain ⟨recs, hrec, hall⟩ := hreads (passing q.includeInternal used.flatten)
  have hmem : ∀ k ∈ passing q.includeInternal used.flatten, k ∈ c.keys := by
    intro k hk
    refine hkeys.2 k ?_
    rw [hsplit, List.flatten_append]
    exact List.mem_append_left _ (List.mem_filter.mp hk).1
  refine ⟨used, rest, itemsOf (passing q.includeInternal used.flatten) recs, next, (), hsplit, hne,
    ?_, keys_itemsOf fun k hk => hall k hk (hmem k hk), ⟨_, recs, rfl⟩, trivial, hend⟩
  unfold Service.call Service.list
  simp only [hready, hloop, hrec]

end Walk

/-- **What a client gets that follows the tokens.** The pages come to an end; together they have a
    row for each key that matches the pattern and passes, in some order. Every page is one of
    classified rows, sorted by key. -/
theorem listPages_rows {svc : Service} {c : Content} (h : Over svc c) (q : ListQuery) :
    ∃ N, ∀ fuel ≥ N, ∃ pages, svc.listPages fuel q = some (.ok pages) ∧
      (pages.flatten.map Item.key).Perm
        (passing q.includeInternal (c.keysLike (listPattern q.appID q.search))) ∧
      ∀ page ∈ pages, ∃ matched recs, page = itemsOf matched recs := by
  obtain ⟨s, records, hready, hcur, hreads⟩ := h.exists_ready
  obtain ⟨keyPages, hpages, -, hflat⟩ :=
    hcur (listPattern q.appID q.search) _ (effectivePageSize_pos q)
  have hnd : (c.keysLike (listPattern q.appID q.search)).Nodup :=
    c.nodup.sublist List.filter_sublist
  refine ⟨keyPages.length, fun fuel hfuel => ?_⟩
  let P : List (List Str) → Prop := fun pages =>
    pages.flatten.Nodup ∧ ∀ k ∈ pages.flatten, k ∈ c.keys
  have hP : ∀ a b, P (a ++ b) → P b := by
    intro a b ⟨hn, hk⟩
    rw [List.flatten_append] at hn hk
    exact ⟨(List.nodup_append.mp hn).2.1, fun k hm => hk k (List.mem_append_right _ hm)⟩
  have hstart : P keyPages := by
    refine ⟨hflat.nodup_iff.mpr hnd, fun k hk => ?_⟩
    exact (Content.mem_keysLike.mp (hflat.mem_iff.mp hk)).1
  obtain ⟨pages, hwalk, hperm, hall⟩ := walkPages_perm (passing_append q.includeInternal)
    (fun a b => List.map_append) hP
    (fun tok pages st hp hm hprop _ => call_takes hready hreads q hp hm hprop)
    fuel [] keyPages () hpages hfuel hfuel hstart trivial
  exact ⟨pages, hwalk, hperm.trans (hflat.filter _), hall⟩

/-- **State paging is complete.** On an unchanging store a client that follows the tokens from
    `""` gets each key that matches the pattern and passes the filter for internal keys once, and
    no other; every page is sorted by key. -/
theorem listPages_complete {svc : Service} {c : Content} (h : Over svc c) (q : ListQuery) :
    ∃ N, ∀ fuel ≥ N, ∃ pages, svc.listPages fuel q = some (.ok pages) ∧
      (∀ page ∈ pages, page.Pairwise fun a b => a.key ≤ b.key) ∧
      (pages.flatten.map Item.key).Nodup ∧
      ∀ k, k ∈ pages.flatten.map Item.key ↔
        k ∈ c.keysLike (listPattern q.appID q.search) ∧
          (q.includeInternal = true ∨ (classify k).kind = .app) := by
  obtain ⟨N, hN⟩ := listPages_rows h q
  refine ⟨N, fun fuel hfuel => ?_⟩
  obtain ⟨pages, hwalk, hperm, hall⟩ := hN fuel hfuel
  refine ⟨pages, hwalk, fun page hp => ?_, ?_, fun k => ?_⟩
  · obtain ⟨matched, recs, rfl⟩ := hall page hp
    exact itemsOf_sorted matched recs
  · exact hperm.nodup_iff.mpr ((c.nodup.sublist List.filter_sublist).sublist List.filter_sublist)
  · rw [hperm.mem_iff, passing, List.mem_filter]
    simp [passes]

/-- Three records of two apps and a workflow record of Dapr's. -/
def shopContent : Content :=
  ⟨["shop||41", "cart||7", "shop||dapr.internal.d.shop.workflow||1||metadata", "shop||42"].map fun k =>
    (k.toList, [123, 125]), by decide⟩

/-- A store that hands them out page by page. -/
def shopStore : Store where
  keys pattern tok pageSize :=
    if pageSize ≤ 0 then .ok (shopContent.keysLike pattern, [])
    else .ok (cut (shopContent.keysLike pattern) pageSize.toNat tok)
  records := some fun ks => .ok (ks.filterMap fun k =>
    (shopContent.get k).map fun v => { key := k, value := v })
  get k := .ok (shopContent.get k)
  set _ _ := .ok ()

theorem over_shopStore : Over ⟨some shopStore⟩ shopContent := by
  refine ⟨shopStore, _, rfl, fun pattern pageSize hpos => ?_, fun ks => ⟨_, rfl, ?_⟩⟩
  · have hread : (fun tok => shopStore.keys pattern tok pageSize) =
        fun tok => .ok (cut (shopContent.keysLike pattern) pageSize.toNat tok) := by
      simp only [shopStore, if_neg (Int.not_le.mpr hpos)]
    obtain ⟨pages, hpages, hlen, hflat⟩ :=
      pages_cut (shopContent.keysLike pattern) (show 0 < pageSize.toNat by omega)
    refine ⟨pages, hread ▸ hpages, fun p hp => ?_, List.Perm.of_eq hflat⟩
    have := hlen p hp
    omega
  · intro k hk hmem
    obtain ⟨v, hv⟩ := Option.ne_none_iff_exists'.mp fun hn => Content.get_eq_none_iff.mp hn hmem
    exact ⟨{ key := k, value := v }, List.mem_filterMap.mpr ⟨k, hk, by rw [hv]; rfl⟩, rfl⟩

/-- Four keys on two pages, of which three are shown. -/
theorem listPages_complete_shop :
    ∃ N, ∀ fuel ≥ N, ∃ pages,
      Service.listPages ⟨some shopStore⟩ fuel { pageSize := 3 } = some (.ok pages) ∧
      (∀ page ∈ pages, page.Pairwise fun a b => a.key ≤ b.key) ∧
      (pages.flatten.map Item.key).Perm ["cart||7".toList, "shop||41".toList, "shop||42".toList] := by
  obtain ⟨N, hN⟩ := listPages_complete over_shopStore { pageSize := 3 }
  refine ⟨N, fun fuel hfuel => ?_⟩
  obtain ⟨pages, hpages, hsorted, hnodup, hkeys⟩ := hN fuel hfuel
  refine ⟨pages, hpages, hsorted, (List.perm_ext_iff_of_nodup hnodup (by decide)).mpr fun k => ?_⟩
  have hall : ∀ k ∈ shopContent.keys, (classify k).kind = .app ↔
      k ∈ ["cart||7".toList, "shop||41".toList, "shop||42".toList] := by decide
  have hlisted : ∀ k ∈ shopContent.keys, k ∈ shopContent.keysLike (listPattern [] []) := by decide
  have hin : ∀ k ∈ ["cart||7".toList, "shop||41".toList, "shop||42".toList],
      k ∈ shopContent.keys := by decide
  rw [hkeys]
  constructor
  · rintro ⟨hk, happ⟩
    exact (hall k (Content.mem_keysLike.mp hk).1).mp (happ.resolve_left (by simp))
  · intro hk
    exact ⟨hlisted k (hin k hk), .inr ((hall k (hin k hk)).mpr hk)⟩

/-! ## 3. The app dropdown -/

/-- The unpaged scan of `AppIDs` returns every key that matches. -/
def Scans (svc : Service) (c : Content) : Prop :=
  ∃ s records ks next, svc.ready = .ok (s, records) ∧ s.keys ['%'] [] 0 = .ok (ks, next) ∧
    ks.Perm (c.keysLike ['%'])

theorem like_percent (k : Str) : Like.like ['%'] k = true :=
  (Like.matchToks_any _ _).mpr ⟨k, [], by simp, rfl⟩

theorem mem_foldl_addAppID {includeInternal : Bool} {keys ids : List Str} {a : Str} :
    a ∈ keys.foldl (Service.addAppID includeInternal) ids ↔
      a ∈ ids ∨ (a ≠ [] ∧ ∃ k ∈ keys, passes includeInternal k = true ∧
        (classify k).appID = a) := by
  induction keys generalizing ids with
  | nil => simp
  | cons k keys ih =>
      have hstep : a ∈ Service.addAppID includeInternal ids k ↔
          a ∈ ids ∨ (a ≠ [] ∧ passes includeInternal k = true ∧ (classify k).appID = a) := by
        unfold Service.addAppID
        split_ifs with h1 h2 h3
        · exact ⟨.inl, fun h => h.elim id fun h => absurd (h.2.2 ▸ h1) h.1⟩
        · exact ⟨.inl, fun h => h.elim id fun h => absurd h.2.1 (by simp [h2])⟩
        · exact ⟨.inl, fun h => h.elim id fun h => h.2.2 ▸ h3⟩
        · rw [List.mem_append, List.mem_singleton]
          refine or_congr_right ⟨fun h => ⟨h ▸ h1, by simpa using h2, h.symm⟩, fun h => h.2.2.symm⟩
      rw [List.foldl_cons, ih, hstep, or_assoc]
      refine or_congr_right ?_
      simp only [List.exists_mem_cons_iff, ← and_or_left]

/-- **What the dropdown offers**: the prefixes of the keys that pass. -/
theorem mem_appIDs {svc : Service} {c : Content} (h : Scans svc c) (includeInternal : Bool) :
    ∃ ids, svc.appIDs includeInternal = .ok ids ∧
      ∀ a, a ∈ ids ↔ a ≠ [] ∧ ∃ k ∈ c.keys, passes includeInternal k = true ∧
        (classify k).appID = a := by
  obtain ⟨s, records, ks, next, hready, hkeys, hperm⟩ := h
  refine ⟨sortStrings (ks.foldl (Service.addAppID includeInternal) []), ?_, fun a => ?_⟩
  · simp only [Service.appIDs, hready, hkeys, bind, Except.bind, pure, Except.pure]
  · have hmem : ∀ k, k ∈ ks ↔ k ∈ c.keys := by
      intro k
      rw [hperm.mem_iff, Content.mem_keysLike]
      exact and_iff_left (like_percent k)
    rw [(sortStrings_perm _).mem_iff, mem_foldl_addAppID]
    simp [hmem]

/-- **The dropdown and the filter agree.** `p` is any string a client may send. -/
theorem appIDs_iff_rows {svc : Service} {c : Content} (h : Over svc c) (hscan : Scans svc c)
    (includeInternal : Bool) (pageSize : Int) (p : Octets) :
    ∃ ids N, svc.appIDs includeInternal = .ok ids ∧ ∀ fuel ≥ N, ∃ pages,
      svc.listPages fuel { appID := p, pageSize, includeInternal } = some (.ok pages) ∧
        (p ∈ ids.map utf8 ↔ p ≠ [] ∧ pages.flatten ≠ [] ∧
          ∀ item ∈ pages.flatten, utf8 item.appID = p) := by
  obtain ⟨ids, hids, hmem⟩ := mem_appIDs hscan includeInternal
  obtain ⟨N, hN⟩ := listPages_rows h { appID := p, pageSize, includeInternal }
  refine ⟨ids, N, hids, fun fuel hfuel => ?_⟩
  obtain ⟨pages, hwalk, hperm, hall⟩ := hN fuel hfuel
  have hrow : ∀ item ∈ pages.flatten, item.appID = (classify item.key).appID := by
    intro item hi
    obtain ⟨page, hp, hi⟩ := List.mem_flatten.mp hi
    obtain ⟨matched, recs, rfl⟩ := hall page hp
    exact (mem_itemsOf hi).2.1
  have hkey : ∀ k, k ∈ pages.flatten.map Item.key ↔
      (k ∈ c.keys ∧ Like.like (listPattern p []) k = true) ∧ passes includeInternal k = true := by
    intro k
    rw [hperm.mem_iff, passing, List.mem_filter, Content.mem_keysLike]
  refine ⟨pages, hwalk, ?_⟩
  constructor
  · intro hp
    obtain ⟨a, ha, rfl⟩ := List.mem_map.mp hp
    obtain ⟨hne, k, hk, hpass, happ⟩ := (hmem a).mp ha
    obtain ⟨hfree, hpre⟩ := (classify_appID_iff hne).mp happ
    have hin := (hkey k).mpr ⟨⟨hk, (like_listPattern hne k).mpr hpre⟩, hpass⟩
    refine ⟨utf8_ne_nil hne, fun hnil => ?_, fun item hi => ?_⟩
    · rw [hnil] at hin
      cases hin
    · have hi' := (hkey item.key).mp (List.mem_map_of_mem hi)
      have hpre' := (like_listPattern hne item.key).mp hi'.1.2
      rw [hrow item hi, (classify_appID_iff hne).mpr ⟨hfree, hpre'⟩]
  · rintro ⟨hp, hne, hrows⟩
    obtain ⟨item, hi⟩ := List.exists_mem_of_ne_nil _ hne
    have happ := hrows item hi
    obtain ⟨⟨hk, -⟩, hpass⟩ := (hkey item.key).mp (List.mem_map_of_mem hi)
    refine List.mem_map.mpr ⟨item.appID, (hmem _).mpr ⟨?_, item.key, hk, hpass, ?_⟩, happ⟩
    · intro hnil
      rw [hnil] at happ
      exact hp happ.symm
    · exact (hrow item hi).symm

theorem scans_shopStore : Scans ⟨some shopStore⟩ shopContent :=
  ⟨shopStore, _, _, _, rfl, rfl, List.Perm.refl _⟩

theorem appIDs_iff_rows_shop :
    ∃ ids N, Service.appIDs ⟨some shopStore⟩ false = .ok ids ∧ ∀ fuel ≥ N, ∃ pages,
      Service.listPages ⟨some shopStore⟩ fuel { appID := utf8 "shop".toList, pageSize := 20 } =
        some (.ok pages) ∧
      (utf8 "shop".toList ∈ ids.map utf8 ↔ utf8 "shop".toList ≠ [] ∧
        pages.flatten ≠ [] ∧ ∀ item ∈ pages.flatten, utf8 item.appID = utf8 "shop".toList) :=
  appIDs_iff_rows over_shopStore scans_shopStore false 20 (utf8 "shop".toList)

end DevDashboard.State
