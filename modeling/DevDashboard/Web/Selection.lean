/-
  File:      DevDashboard/Web/Selection.lean
  Subject:   SELECTING WORKFLOWS AND REMOVING THEM (`web/src/pages/Workflows.tsx`,
             `web/src/lib/dedupeWorkflows.ts`).

  The page keeps the ticked rows as a set of keys `appId/instanceId`, in the order they were
  ticked, and takes the keys apart again for the dialog and for the request.

  * `selection_run` -- after any clicks the selection names rows on the page, each once;
  * `removal_exact_iff` -- a bulk removal targets exactly the ticked rows if and only if no
    ticked row has a `/` in its instance id.
-/
import DevDashboard.Server.Purge

namespace DevDashboard.Web

open Lib StateStore Workflow Server

/-! ## 1. Rows and keys -/

/-- A row of the workflow list. -/
structure WorkflowSummary where
  appID : Str
  instanceID : Str
  status : Status
  deriving DecidableEq

/-- The key `${w.appId}/${w.instanceId}`. -/
def WorkflowSummary.key (w : WorkflowSummary) : Str := w.appID ++ '/' :: w.instanceID

def WorkflowSummary.ref (w : WorkflowSummary) : TargetRef := ⟨w.appID, w.instanceID⟩

/-- The loop of `dedupeWorkflows` with the keys seen so far. -/
def dedupeFrom (seen : List Str) : List WorkflowSummary → List WorkflowSummary
  | [] => []
  | w :: ws =>
      if w.key ∈ seen then dedupeFrom seen ws else w :: dedupeFrom (w.key :: seen) ws

/-- `dedupeWorkflows`. -/
def dedupeWorkflows (items : List WorkflowSummary) : List WorkflowSummary := dedupeFrom [] items

/-- `const [appId, instanceId] = key.split('/')`; a piece that is not there is undefined and
    reaches the server as the empty string. -/
def splitKey (key : Str) : TargetRef :=
  let pieces := key.splitOn '/'
  ⟨pieces[0]?.getD [], pieces[1]?.getD []⟩

/-! ## 2. The selection -/

/-- What the user clicks: the checkbox of a row that is on the page, or the one in the head. -/
inductive Click (items : List WorkflowSummary) where
  | row (w : {w // w ∈ items})
  | all

/-- A set of keys in insertion order. -/
abbrev Selected := List Str

/-- `next.add(key)`. -/
def addKey (selected : Selected) (key : Str) : Selected :=
  if key ∈ selected then selected else selected ++ [key]

/-- `toggleRow`. -/
def toggleRow (updating : Bool) (selected : Selected) (key : Str) : Selected :=
  if updating then selected
  else if key ∈ selected then selected.filter (· ≠ key)
  else addKey selected key

/-- `toggleAll`. -/
def toggleAll (updating : Bool) (items : List WorkflowSummary) (selected : Selected) : Selected :=
  if updating then selected
  else if selected.length = items.length ∧ 0 < items.length then []
  else (items.map WorkflowSummary.key).foldl addKey []

/-- One click; while the page is updating it does nothing. -/
def click (items : List WorkflowSummary) (selected : Selected) :
    Bool × Click items → Selected
  | (updating, .row w) => toggleRow updating selected w.1.key
  | (updating, .all) => toggleAll updating items selected

/-- The selection after some clicks. -/
def selectedAfter (items : List WorkflowSummary) (clicks : List (Bool × Click items)) : Selected :=
  clicks.foldl (click items) []

/-- The rows that show as ticked. -/
def ticked (items : List WorkflowSummary) (selected : Selected) : List WorkflowSummary :=
  items.filter fun w => w.key ∈ selected

/-! ## 3. The dialog and the request -/

/-- The `ids` of `onConfirmRemove`. -/
def confirmIDs (selected : Selected) : List TargetRef := selected.map splitKey

structure DialogTarget where
  appID : Str
  instanceID : Str
  /-- `item?.status` -/
  status : Option Status
  deriving DecidableEq

/-- `dialogTargets`. -/
def dialogTargets (items : List WorkflowSummary) (selected : Selected) : List DialogTarget :=
  selected.map fun key =>
    let ref := splitKey key
    let item := items.find? fun w => w.appID = ref.appID ∧ w.instanceID = ref.instanceID
    ⟨ref.appID, ref.instanceID, item.map (·.status)⟩

/-! ## 4. The selection names rows, each once -/

structure SelectionInv (items : List WorkflowSummary) (selected : Selected) : Prop where
  nodup : selected.Nodup
  rows : ∀ k ∈ selected, k ∈ items.map WorkflowSummary.key

theorem selectionInv_nil (items : List WorkflowSummary) : SelectionInv items [] :=
  ⟨List.nodup_nil, fun _ hk => absurd hk List.not_mem_nil⟩

theorem selectionInv_addKey {items : List WorkflowSummary} {selected : Selected} {key : Str}
    (h : SelectionInv items selected) (hk : key ∈ items.map WorkflowSummary.key) :
    SelectionInv items (addKey selected key) := by
  unfold addKey
  split
  · exact h
  · rename_i hn
    refine ⟨List.nodup_append.mpr ⟨h.nodup, List.nodup_singleton _, ?_⟩, fun k hm => ?_⟩
    · rintro a ha b hb rfl
      exact hn (List.mem_singleton.mp hb ▸ ha)
    · rcases List.mem_append.mp hm with hm | hm
      · exact h.rows k hm
      · rw [List.mem_singleton.mp hm]
        exact hk

theorem selectionInv_addAll {items : List WorkflowSummary} {keys : List Str}
    (hk : ∀ k ∈ keys, k ∈ items.map WorkflowSummary.key) {selected : Selected}
    (h : SelectionInv items selected) : SelectionInv items (keys.foldl addKey selected) := by
  induction keys generalizing selected with
  | nil => exact h
  | cons k keys ih =>
      exact ih (fun x hx => hk x (List.mem_cons_of_mem k hx))
        (selectionInv_addKey h (hk k List.mem_cons_self))

theorem selectionInv_click {items : List WorkflowSummary} {selected : Selected}
    (h : SelectionInv items selected) (x : Bool × Click items) :
    SelectionInv items (click items selected x) := by
  obtain ⟨updating, x⟩ := x
  cases updating with
  | true => cases x <;> exact h
  | false =>
      cases x with
      | row w =>
          simp only [click, toggleRow, Bool.false_eq_true, if_false]
          split
          · exact ⟨h.nodup.filter _, fun k hk => h.rows k (List.mem_filter.mp hk).1⟩
          · exact selectionInv_addKey h (List.mem_map_of_mem w.2)
      | all =>
          simp only [click, toggleAll, Bool.false_eq_true, if_false]
          split
          · exact selectionInv_nil items
          · exact selectionInv_addAll (fun k hk => hk) (selectionInv_nil items)

/-- **After any clicks the selection names rows on the page, each once.** -/
theorem selection_run (items : List WorkflowSummary) (clicks : List (Bool × Click items)) :
    SelectionInv items (selectedAfter items clicks) := by
  have h : ∀ selected, SelectionInv items selected →
      SelectionInv items (clicks.foldl (click items) selected) := by
    induction clicks with
    | nil => exact fun _ h => h
    | cons x xs ih => exact fun _ h => ih _ (selectionInv_click h x)
  exact h [] (selectionInv_nil items)

/-! ## 5. Rows on the page have different keys -/

theorem mem_of_mem_dedupeFrom {seen : List Str} {ws : List WorkflowSummary} {w : WorkflowSummary}
    (h : w ∈ dedupeFrom seen ws) : w ∈ ws ∧ w.key ∉ seen := by
  induction ws generalizing seen with
  | nil => cases h
  | cons x ws ih =>
      unfold dedupeFrom at h
      split at h
      · exact ⟨List.mem_cons_of_mem x (ih h).1, (ih h).2⟩
      · rename_i hx
        rcases List.mem_cons.mp h with rfl | h
        · exact ⟨List.mem_cons_self, hx⟩
        · exact ⟨List.mem_cons_of_mem x (ih h).1, fun hs => (ih h).2 (List.mem_cons_of_mem _ hs)⟩

theorem dedupeFrom_nodup (seen : List Str) (ws : List WorkflowSummary) :
    ((dedupeFrom seen ws).map WorkflowSummary.key).Nodup := by
  induction ws generalizing seen with
  | nil => exact List.nodup_nil
  | cons w ws ih =>
      unfold dedupeFrom
      split
      · exact ih seen
      · rw [List.map_cons, List.nodup_cons]
        refine ⟨fun hm => ?_, ih _⟩
        obtain ⟨x, hx, hk⟩ := List.mem_map.mp hm
        exact (mem_of_mem_dedupeFrom hx).2 (hk ▸ List.mem_cons_self)

/-- A selection is the keys of its ticked rows. -/
theorem selected_perm_ticked {items : List WorkflowSummary} {selected : Selected}
    (hn : (items.map WorkflowSummary.key).Nodup) (h : SelectionInv items selected) :
    selected.Perm ((ticked items selected).map WorkflowSummary.key) := by
  refine (List.perm_ext_iff_of_nodup h.nodup ?_).mpr fun k => ?_
  · exact hn.sublist (List.filter_sublist.map _)
  · simp only [ticked, List.mem_map, List.mem_filter, decide_eq_true_eq]
    constructor
    · intro hk
      obtain ⟨w, hw, rfl⟩ := List.mem_map.mp (h.rows k hk)
      exact ⟨w, ⟨hw, hk⟩, rfl⟩
    · rintro ⟨w, ⟨-, hk⟩, rfl⟩
      exact hk

/-! ## 6. Taking a key apart -/

theorem splitOn_key {w : WorkflowSummary} (happ : '/' ∉ w.appID) :
    w.key.splitOn '/' = w.appID :: w.instanceID.splitOn '/' := by
  rw [WorkflowSummary.key, List.splitOn_append_cons_self, List.splitOn_eq_singleton happ]
  rfl

/-- A key without a second slash gives its row back. -/
theorem splitKey_key {w : WorkflowSummary} (happ : '/' ∉ w.appID) (hid : '/' ∉ w.instanceID) :
    splitKey w.key = w.ref := by
  simp only [splitKey, splitOn_key happ, List.splitOn_eq_singleton hid]
  rfl

/-- What is read as the instance id never has a slash. -/
theorem splitKey_no_slash {w : WorkflowSummary} (happ : '/' ∉ w.appID) :
    '/' ∉ (splitKey w.key).instanceID := by
  by_cases hid : '/' ∈ w.instanceID
  · obtain ⟨p, q, hp, hpq⟩ := Url.exists_cut hid
    have hsplit : w.instanceID.splitOn '/' = p :: q.splitOn '/' := by
      rw [hpq, List.splitOn_append_cons_self, List.splitOn_eq_singleton hp]
      rfl
    simpa [splitKey, splitOn_key happ, hsplit] using hp
  · rw [splitKey_key happ hid]
    exact hid

/-- The first row with given ids is the row that has them, keys being different. -/
theorem find_row {items : List WorkflowSummary} (hn : (items.map WorkflowSummary.key).Nodup)
    {w : WorkflowSummary} (hw : w ∈ items) :
    items.find? (fun x => x.appID = w.appID ∧ x.instanceID = w.instanceID) = some w := by
  have hsome : (items.find? fun x => x.appID = w.appID ∧ x.instanceID = w.instanceID).isSome := by
    rw [List.find?_isSome]
    exact ⟨w, hw, by simp⟩
  obtain ⟨x, hx⟩ := Option.isSome_iff_exists.mp hsome
  have hp := List.find?_some hx
  simp only [decide_eq_true_eq] at hp
  have hkey : x.key = w.key := by rw [WorkflowSummary.key, hp.1, hp.2]; rfl
  rw [hx, List.inj_on_of_nodup_map hn (List.mem_of_find?_eq_some hx) hw hkey]

/-! ## 7. A bulk removal -/

/-- **A bulk removal targets exactly the ticked rows**: the ids of the request, the targets shown
    in the dialog, and what the handler resolves, removes and reports are theirs, once each. -/
structure RemovalExact (A E : Type) (items : List WorkflowSummary) (selected : Selected) :
    Prop where
  ids : (confirmIDs selected).Perm ((ticked items selected).map (·.ref))
  dialog : (dialogTargets items selected).Perm
    ((ticked items selected).map fun w => ⟨w.appID, w.instanceID, some w.status⟩)
  handled : ∀ (errText : E → Str) (apps : Str → Option AppInstance)
    (wf : Str → Str → Except E Execution) (r : Remover) (envs : Nat → Env A) (c : Content)
    (force : Bool), ∃ done,
      purgeHandler (some (resolve errText apps wf, r)) envs c
        (some ⟨confirmIDs selected, force⟩) = .ok done ∧
      done.resolved.Perm ((ticked items selected).map (·.ref)) ∧
      (done.targets.map fun t => TargetRef.mk t.appID t.instanceID).Perm
        (((ticked items selected).map (·.ref)).filter (accepted wf)) ∧
      (done.results.map (·.instanceID)).Perm ((ticked items selected).map (·.instanceID))

section Exact

variable {items : List WorkflowSummary} {selected : Selected}

theorem confirmIDs_perm (hn : (items.map WorkflowSummary.key).Nodup)
    (h : SelectionInv items selected) (happ : ∀ w ∈ items, '/' ∉ w.appID)
    (hid : ∀ w ∈ ticked items selected, '/' ∉ w.instanceID) :
    (confirmIDs selected).Perm ((ticked items selected).map (·.ref)) := by
  refine ((selected_perm_ticked hn h).map splitKey).trans ?_
  rw [List.map_map]
  refine List.Perm.of_eq (List.map_congr_left fun w hw => ?_)
  exact splitKey_key (happ w (List.mem_filter.mp hw).1) (hid w hw)

theorem dialogTargets_perm (hn : (items.map WorkflowSummary.key).Nodup)
    (h : SelectionInv items selected) (happ : ∀ w ∈ items, '/' ∉ w.appID)
    (hid : ∀ w ∈ ticked items selected, '/' ∉ w.instanceID) :
    (dialogTargets items selected).Perm
      ((ticked items selected).map fun w => ⟨w.appID, w.instanceID, some w.status⟩) := by
  refine ((selected_perm_ticked hn h).map _).trans ?_
  rw [List.map_map]
  refine List.Perm.of_eq (List.map_congr_left fun w hw => ?_)
  have hw' := (List.mem_filter.mp hw).1
  simp only [Function.comp_apply, splitKey_key (happ w hw') (hid w hw)]
  show DialogTarget.mk w.appID w.instanceID (Option.map _ (items.find? fun x =>
    x.appID = w.appID ∧ x.instanceID = w.instanceID)) = _
  rw [find_row hn hw']
  rfl

/-- A ticked row with a slash in its id is not among the ids sent. -/
theorem not_mem_confirmIDs (h : SelectionInv items selected) (happ : ∀ w ∈ items, '/' ∉ w.appID)
    {w : WorkflowSummary} (hid : '/' ∈ w.instanceID) : w.ref ∉ confirmIDs selected := by
  intro hm
  obtain ⟨k, hk, he⟩ := List.mem_map.mp hm
  obtain ⟨x, hx, rfl⟩ := List.mem_map.mp (h.rows k hk)
  have hs := splitKey_no_slash (happ x hx)
  rw [he] at hs
  exact hs hid

end Exact

/-- **A bulk removal targets exactly the ticked rows if and only if no ticked row has a slash in
    its instance id**, for every list of rows and after any clicks. -/
theorem removal_exact_iff (A E : Type) (rows : List WorkflowSummary)
    (happ : ∀ w ∈ rows, '/' ∉ w.appID)
    (clicks : List (Bool × Click (dedupeWorkflows rows))) :
    RemovalExact A E (dedupeWorkflows rows) (selectedAfter _ clicks) ↔
      ∀ w ∈ ticked (dedupeWorkflows rows) (selectedAfter _ clicks), '/' ∉ w.instanceID := by
  have hn := dedupeFrom_nodup [] rows
  have hinv := selection_run (dedupeWorkflows rows) clicks
  have happ' : ∀ w ∈ dedupeWorkflows rows, '/' ∉ w.appID := fun w hw =>
    happ w (mem_of_mem_dedupeFrom hw).1
  constructor
  · intro h w hw hid
    exact not_mem_confirmIDs hinv happ' hid (h.ids.mem_iff.mpr (List.mem_map_of_mem hw))
  · intro hid
    have hids := confirmIDs_perm hn hinv happ' hid
    refine ⟨hids, dialogTargets_perm hn hinv happ' hid, ?_⟩
    intro errText apps wf r envs c force
    refine ⟨_, rfl, hids, ?_, ?_⟩
    · rw [purge_targets]
      exact hids.filter _
    · refine (purge_results errText apps wf r envs c _).trans ?_
      have := hids.map (·.instanceID)
      rwa [List.map_map] at this

/-- Two rows, both ticked by the box in the head. -/
theorem removal_exact_iff_all :
    ∃ rows : List WorkflowSummary, rows.length = 2 ∧
      RemovalExact Unit Unit (dedupeWorkflows rows)
        (selectedAfter (dedupeWorkflows rows) [(false, .all)]) ∧
      (ticked (dedupeWorkflows rows)
        (selectedAfter (dedupeWorkflows rows) [(false, .all)])).length = 2 :=
  ⟨[⟨"a".toList, "x".toList, .running⟩, ⟨"b".toList, "x".toList, .failed⟩], rfl,
    (removal_exact_iff Unit Unit _ (by decide) _).mpr (by decide), by decide⟩

/-- The row `x/y` is ticked; the dialog shows the other row's id and the request names it. -/
theorem removal_hits_other :
    ∃ (rows : List WorkflowSummary) (clicks : List (Bool × Click (dedupeWorkflows rows))),
      (∀ w ∈ rows, '/' ∉ w.appID) ∧
      ticked (dedupeWorkflows rows) (selectedAfter _ clicks) =
        [⟨"a".toList, "x/y".toList, .failed⟩] ∧
      confirmIDs (selectedAfter _ clicks) = [⟨"a".toList, "x".toList⟩] ∧
      dialogTargets (dedupeWorkflows rows) (selectedAfter _ clicks) =
        [⟨"a".toList, "x".toList, some .running⟩] ∧
      ¬ RemovalExact Unit Unit (dedupeWorkflows rows) (selectedAfter _ clicks) := by
  refine ⟨[⟨"a".toList, "x".toList, .running⟩, ⟨"a".toList, "x/y".toList, .failed⟩],
    [(false, .row ⟨⟨"a".toList, "x/y".toList, .failed⟩, by decide⟩)], by decide, by decide,
    by decide, by decide, fun h => ?_⟩
  have hm : TargetRef.mk "a".toList "x/y".toList ∈ confirmIDs _ := h.ids.mem_iff.mpr (by decide)
  exact absurd hm (by decide)

end DevDashboard.Web
