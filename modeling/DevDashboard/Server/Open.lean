/-
  File:      DevDashboard/Server/Open.lean
  Subject:   WHICH ROWS OF A PAGE CAN BE OPENED (`service.List` against `service.Get` and
             `targetResolver.Resolve`).

  `Get` takes an execution with no history, no name and the pending status for missing; `List` has
  no such check. Both read the same keys, so on the same content they part exactly there.

  * `summaryOf_eq`, `get_eq` -- both decode the keys of `readKeys`;
  * `found_iff` -- what `Get` finds has an event;
  * `listed_opens_iff` -- a listed row opens exactly if its instance has an event to show.
-/
import DevDashboard.Workflow.Rows
import DevDashboard.Server.Purge

namespace DevDashboard.Server

open Lib StateStore Workflow

/-! ## 1. What both read of an instance -/

/-- The keys an instance is read from: those its record declares, or those the scan finds. -/
def readKeys (cd : Codec) (c : Content) (ns : Str) (r : InstanceRef) : List Str :=
  match historyLength cd (c.get (r.metaKey ns)) with
  | some n => declaredKeys (instancePrefix ns r.appID r.id) n
  | none => c.keysLike (instanceKeyPattern ns r.appID r.id)

/-- What these keys decode to. -/
def readExecution (cd : Codec) (c : Content) (ns : Str) (r : InstanceRef) : Execution :=
  decodeInstance cd r.appID r.id (instancePrefix ns r.appID r.id)
    (c.bulkGet (readKeys cd c ns r))

/-- **An event to show**: one of the keys read is a history key whose value is there and decodes. -/
def HasEvent (cd : Codec) (c : Content) (ns : Str) (r : InstanceRef) : Prop :=
  ∃ k ∈ readKeys cd c ns r,
    historyPrefix <+: Str.trimPrefix k (instancePrefix ns r.appID r.id) ∧
      hasValue (c.get k) = true ∧ ∃ e, cd.event ((c.get k).getD []) = some e

/-- What `runtimestate` says of an instance nothing has happened to: not started, no name. -/
def StartsPending (cd : Codec) : Prop :=
  ∀ id cs, normalizeStatus (cd.runtimeState id cs []).status = .pending ∧
    (cd.runtimeState id cs []).name.getD [] = []

section Reads

variable {cd : Codec} {s : StoreReads} {c : Content} (hs : Serves s c)

include hs

/-- The row of a listed instance. -/
theorem summaryOf_eq {ns : Str} {r : InstanceRef} {row : ExecutionSummary}
    (h : summaryOf cd s ns c r = some row) : (readExecution cd c ns r).summary = row := by
  unfold summaryOf at h
  unfold readExecution readKeys
  cases hl : historyLength cd (c.get (r.metaKey ns)) with
  | some n =>
      rw [loadWithMeta_eq hs hl] at h
      exact Option.some.inj h
  | none =>
      simp only [loadWithMeta, hl, loadByScan_eq hs] at h
      split at h
      · rename_i heq
        split at heq
        · cases heq
        · obtain ⟨rfl, -⟩ := Prod.mk.inj (Except.ok.inj heq)
          exact Option.some.inj h
      · cases h

/-- `Get` decodes the same and has one more check. -/
theorem get_eq {svc : Service} (hstore : svc.store = some s) (hres : svc.nsResolver = none)
    {r : InstanceRef} {row : ExecutionSummary} (h : summaryOf cd s svc.ns c r = some row) :
    svc.get cd r.appID r.id = found (readExecution cd c svc.ns r) := by
  have hns := effectiveNS_of_none hres r.appID
  unfold readExecution readKeys
  cases hl : historyLength cd (c.get (r.metaKey svc.ns)) with
  | some n =>
      have hg := @get_of_record cd _ _ hs _ hstore r.appID r.id n (by rw [hns]; exact hl)
      rw [hns] at hg
      exact hg
  | none =>
      have hg := @get_of_no_record cd _ _ hs _ hstore r.appID r.id (by rw [hns]; exact hl)
      rw [hns, loadByScan_eq hs] at hg
      rw [hg]
      -- the scan found keys, or the instance would not be listed
      by_cases hk : c.keysLike (instanceKeyPattern svc.ns r.appID r.id) = []
      · simp only [summaryOf, loadWithMeta, hl, loadByScan_eq hs, if_pos hk] at h
        cases h
      · rw [if_neg hk]
        rfl

end Reads

/-! ## 2. The check of `Get` -/

theorem history_readExecution (cd : Codec) (c : Content) (ns : Str) (r : InstanceRef) :
    (readExecution cd c ns r).history ≠ [] ↔ HasEvent cd c ns r := by
  have hlen := history_decodeInstance cd r.appID r.id (instancePrefix ns r.appID r.id) c
    (readKeys cd c ns r)
  rw [← List.length_pos_iff, readExecution, hlen, List.length_pos_iff, historyOf, Ne,
    List.filterMap_eq_nil_iff]
  constructor
  · intro h
    obtain ⟨k, hk⟩ := not_forall.mp h
    obtain ⟨hm, hne⟩ := Classical.not_imp.mp hk
    obtain ⟨hread, hpre, hval⟩ := mem_historyKeys.mp ((sortStrings_perm _).mem_iff.mp hm)
    exact ⟨k, hread, hpre, hval, Option.ne_none_iff_exists'.mp hne⟩
  · intro he h
    obtain ⟨k, hread, hpre, hval, e, he⟩ := he
    have hm := (sortStrings_perm _).mem_iff.mpr (mem_historyKeys.mpr ⟨hread, hpre, hval⟩)
    rw [h k hm] at he
    cases he

/-- An execution without history is taken for missing. -/
theorem foundNothing_iff {cd : Codec} (hcd : StartsPending cd) (c : Content) (ns : Str)
    (r : InstanceRef) : foundNothing (readExecution cd c ns r) = true ↔ ¬ HasEvent cd c ns r := by
  rw [← history_readExecution, not_not]
  constructor
  · intro h
    exact (of_decide_eq_true h).1
  · intro h
    -- no event: the summary is that of an instance nothing has happened to
    have hnil : historyOf cd c (historyKeys (instancePrefix ns r.appID r.id)
        (c.bulkGet (readKeys cd c ns r))) = [] := by
      rw [← List.length_eq_zero_iff, ← history_decodeInstance cd r.appID r.id]
      exact List.length_eq_zero_iff.mpr h
    have hsum : (readExecution cd c ns r).summary.status = .pending ∧
        (readExecution cd c ns r).summary.name = [] := by
      rw [readExecution, decodeInstance_bulkGet, hnil]
      exact hcd _ _
    exact decide_eq_true ⟨h, hsum⟩

theorem found_iff {cd : Codec} (hcd : StartsPending cd) (c : Content) (ns : Str)
    (r : InstanceRef) :
    found (readExecution cd c ns r) = .ok (readExecution cd c ns r) ↔ HasEvent cd c ns r := by
  have h := foundNothing_iff hcd c ns r
  unfold found
  by_cases he : HasEvent cd c ns r
  · simp [mt h.mp (not_not.mpr he), he]
  · simp [h.mpr he, he]

/-! ## 3. Listed rows -/

/-- **A row opens**: `Get` succeeds on its ids with the summary the row shows, and so does the
    target resolver of a removal. -/
def Opens (cd : Codec) (svc : Service) (apps : Str → Option AppInstance)
    (row : ExecutionSummary) : Prop :=
  ∃ ex t, svc.get cd row.appID row.instanceID = .ok ex ∧ ex.summary = row ∧
    resolve LoadError.text apps (svc.get cd) row.appID row.instanceID = .ok t

theorem opens_iff {cd : Codec} (hcd : StartsPending cd) {svc : Service} {s : StoreReads}
    {c : Content} (hstore : svc.store = some s) (hres : svc.nsResolver = none) (hs : Serves s c)
    (apps : Str → Option AppInstance) {row : ExecutionSummary}
    (h : summaryOf cd s svc.ns c ⟨row.appID, row.instanceID⟩ = some row) :
    Opens cd svc apps row ↔ HasEvent cd c svc.ns ⟨row.appID, row.instanceID⟩ := by
  have hget := get_eq hs hstore hres h
  have hsum := summaryOf_eq hs h
  rw [← found_iff hcd, ← hget]
  constructor
  · intro ho
    obtain ⟨ex, t, hex, -, -⟩ := ho
    rw [hex] at hget ⊢
    rw [found] at hget
    split at hget
    · cases hget
    · exact hget
  · intro hok
    obtain ⟨t, ht⟩ := exists_resolve LoadError.text apps hok
    exact ⟨_, t, hok, hsum, ht⟩

/-- **Listed rows that open**: whatever the store holds, for every query and page, a row opens
    exactly if its instance has an event to show. -/
theorem listed_opens_iff {cd : Codec} (hcd : StartsPending cd) {toLower : Str → Str}
    {others : Others} {svc : Service} {s : StoreReads} {c : Content} (hstore : svc.store = some s)
    (hres : svc.nsResolver = none) (hs : Serves s c)
    (hothers : ∀ n cache, Genuine cd s svc.ns c cache → Genuine cd s svc.ns c (others n cache))
    {q : ListQuery} {fuel : Nat} {x x' : Shared} {res : ListResult}
    (hx : Genuine cd s svc.ns c x.cache)
    (h : svc.list cd toLower others fuel q x = some (.ok (res, x')))
    (apps : Str → Option AppInstance) :
    ∀ row ∈ res.items,
      (Opens cd svc apps row ↔ HasEvent cd c svc.ns ⟨row.appID, row.instanceID⟩) :=
  fun _ hrow => opens_iff hcd hstore hres hs apps (list_genuine hstore hres hs hothers hx h hrow)

theorem startsPending_tinyCodec : StartsPending tinyCodec := fun _ _ => ⟨rfl, rfl⟩

/-- The page of a store with one proper instance. -/
theorem list_oneInstance {cd : Codec} {svc : Service} {c : Content} {r : InstanceRef}
    (hstore : svc.store = some (storeOf c)) (hres : svc.nsResolver = none) (hr : Proper r)
    (hkeys : c.keysLike (metaPattern svc.ns []) = [r.metaKey svc.ns])
    (hparse : parseRef (r.metaKey svc.ns) = some r) {row : ExecutionSummary}
    (hrow : summaryOf cd (storeOf c) svc.ns c r = some row) :
    ∃ res x', svc.list cd id (fun _ cache => cache) 1 everything
        ⟨newSummaryCache maxCachedSummaries, 0⟩ = some (.ok (res, x')) ∧ row ∈ res.items := by
  obtain ⟨x', hload, -⟩ := @loadSummaries_eq cd (fun _ cache => cache) _ svc.ns c (fun _ _ h => h)
    (serves_storeOf c) [r] (by simpa using hr.app_nul) ⟨newSummaryCache maxCachedSummaries, 0⟩
    (coherent_empty _ _ _ _ _)
  have hrefs : refsFromKeys (c.keysLike (metaPattern svc.ns everything.appID)) [] =
      ([r], [r.dedupKey]) := by
    rw [show metaPattern svc.ns everything.appID = metaPattern svc.ns [] from rfl, hkeys]
    simp [refsFromKeys, hparse]
  have hlist := @list_onePage cd id _ _ _ _ hstore everything (effectiveNS_of_none hres _) _ _ _ _ _
    hrefs hload 0
  refine ⟨_, _, hlist, ?_⟩
  have hperm := (@finishPage_perm everything ⟨Workflow.accepted id everything
    ([r].map (summaryOf cd (storeOf c) svc.ns c)), []⟩
    fun _ => (length_accepted_le _).trans (show 1 ≤ 50 by decide)).1
  rw [hperm.mem_iff, mem_accepted]
  exact ⟨by simp [hrow], matches_everything row⟩

/-- The service over the store of one complete instance. -/
def orderService : Service := { store := some (storeOf orderEntry), ns := "d".toList }

theorem hasEvent_order : HasEvent tinyCodec orderEntry "d".toList order42 :=
  ⟨instancePrefix "d".toList order42.appID order42.id ++ historyKey 0, by decide, by decide, by decide,
    ⟨0, none, .orchestratorStarted⟩, by decide⟩

theorem listed_opens_iff_order :
    ∃ res x' row, orderService.list tinyCodec id (fun _ cache => cache) 1 everything
        ⟨newSummaryCache maxCachedSummaries, 0⟩ = some (.ok (res, x')) ∧ row ∈ res.items ∧
      Opens tinyCodec orderService (fun _ => none) row := by
  have hrow : summaryOf tinyCodec (storeOf orderEntry) "d".toList orderEntry order42 =
      some (readExecution tinyCodec orderEntry "d".toList order42).summary := by
    have hl := @loadWithMeta_eq tinyCodec _ _ (serves_storeOf orderEntry) "d".toList order42.appID
      order42.id (orderEntry.get (order42.metaKey "d".toList)) 1 (by decide)
    simp only [summaryOf, hl]
    rfl
  obtain ⟨res, x', hlist, hmem⟩ := @list_oneInstance tinyCodec orderService orderEntry order42 rfl
    rfl proper_order42 (by decide) (by decide) _ hrow
  refine ⟨res, x', _, hlist, hmem, ?_⟩
  exact (listed_opens_iff startsPending_tinyCodec rfl rfl (serves_storeOf orderEntry)
    (fun _ _ h => h) (genuine_empty _ _ _ _ _) hlist _ _ hmem).mpr hasEvent_order

/-- **A listed row that does not open**: the record declares one entry, and there is none. -/
theorem listed_not_found :
    ∃ res x' row, (oneKeyService "d".toList order42 lengthOne).list tinyCodec id (fun _ cache => cache) 1
        everything ⟨newSummaryCache maxCachedSummaries, 0⟩ = some (.ok (res, x')) ∧
      row ∈ res.items ∧ (⟨row.appID, row.instanceID⟩ : InstanceRef) = order42 ∧
      (oneKeyService "d".toList order42 lengthOne).get tinyCodec row.appID row.instanceID =
        .error .notFound ∧
      ∀ apps, ¬ Opens tinyCodec (oneKeyService "d".toList order42 lengthOne) apps row := by
  obtain ⟨row, hrow⟩ := @exists_summaryOf_oneKey tinyCodec "d".toList order42 lengthOne 1 (by decide)
  have hids := ids_of_summaryOf hrow
  obtain ⟨res, x', hlist, hmem⟩ := @list_oneInstance tinyCodec
    (oneKeyService "d".toList order42 lengthOne) (oneKey "d".toList order42 lengthOne) order42 rfl rfl
    proper_order42 (by decide) (by decide) _ hrow
  have hnone : ¬ HasEvent tinyCodec (oneKey "d".toList order42 lengthOne) "d".toList order42 := by
    intro h
    obtain ⟨k, hk, -, hval, -⟩ := h
    have hall : ∀ k ∈ readKeys tinyCodec (oneKey "d".toList order42 lengthOne) "d".toList order42,
        hasValue ((oneKey "d".toList order42 lengthOne).get k) = false := by decide
    rw [hall k hk] at hval
    cases hval
  have hget : (oneKeyService "d".toList order42 lengthOne).get tinyCodec row.appID row.instanceID =
      .error .notFound := by
    have hg := @get_eq tinyCodec _ _ (serves_storeOf (oneKey "d".toList order42 lengthOne))
      (oneKeyService "d".toList order42 lengthOne) rfl rfl order42 row hrow
    have hf := found_eq_notFound.mpr ((foundNothing_iff startsPending_tinyCodec _ _ _).mpr hnone)
    have happ := congrArg InstanceRef.appID hids
    have hid := congrArg InstanceRef.id hids
    rw [show row.appID = order42.appID from happ, show row.instanceID = order42.id from hid]
    exact hg.trans hf
  refine ⟨res, x', row, hlist, hmem, hids, hget, fun apps ho => ?_⟩
  obtain ⟨ex, t, hok, -⟩ := ho
  rw [hget] at hok
  cases hok

end DevDashboard.Server
