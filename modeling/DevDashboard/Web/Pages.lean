/-
  File:      DevDashboard/Web/Pages.lean
  Subject:   THE LIST PAGES (`web/src/pages/Workflows.tsx`, `web/src/pages/State.tsx`,
             `web/src/hooks/useWorkflows.ts`): filters, paging, the search debounce, query results,
             the selection and the dialog that removes it.

  Both pages are one machine with the row type and the filters of each. The query cache keeps a
  result for every query. A page shows the one of its query; while that is loading the rows of the
  query before may stand in (`keepPreviousWithinStore`).

  * `Calm` -- the events that take no selected row off the page;
  * `Kept.after` -- each of them keeps the selection on the page;
  * `selected_visible` -- in a run of calm events, whatever a dialog can remove is on the page;
  * `hidden_row_selected` -- a keystroke, a tick, the debounce: the selection is off the page.
-/
import DevDashboard.Web.Selection
import DevDashboard.State.Service
import DevDashboard.Lib.Machine

namespace DevDashboard.Web

open Lib

/-! ## 1. Queries and pages -/

/-- The parameters of a list query; `facet` is what only one of the pages filters by. -/
structure Query (F : Type) where
  store : Str
  app : Str
  search : Str
  page : Option Str
  facet : F
  deriving DecidableEq

structure ListResult (R : Type) where
  items : List R
  nextToken : Option Str

/-- What the query cache has of a query: its last result, and whether the last fetch failed. -/
structure Cached (R : Type) where
  data : Option (ListResult R) := none
  error : Bool := false

/-- What one page has of its own. -/
structure PageKind (R F : Type) where
  key : R → Str
  dedupe : List R → List R
  /-- `placeholderData`: may the rows of the first query stand in for those of the second? -/
  standsIn : Query F → Query F → Bool
  /-- Is the dialog locked while the request is under way? -/
  locks : Bool
  dedupe_nil : dedupe [] = []

structure Page (R F : Type) where
  facet : F
  selectedApp : Str
  searchInput : Str
  debouncedSearch : Str
  page : Option Str
  history : List (Option Str × Nat)
  pageOffset : Nat
  selectedStore : Option Str
  defaultApplied : Bool
  selected : Selected
  dialogOpen : Bool
  removing : Bool
  cache : Query F → Cached R
  /-- The last query that had a result, with it. -/
  last : Option (Query F × ListResult R)

section Machine

variable {R F : Type} (kind : PageKind R F)

namespace Page

/-- The query of the page; without a store there is none. -/
def query (p : Page R F) : Option (Query F) :=
  p.selectedStore.map fun store => ⟨store, p.selectedApp, p.debouncedSearch, p.page, p.facet⟩

/-- The cached result of the page's own query. -/
def own (p : Page R F) : Cached R := (p.query.map p.cache).getD {}

def isError (p : Page R F) : Bool := p.own.error

/-- The rows that stand in while the page's own query is loading. -/
def placeholder (p : Page R F) : Option (ListResult R) :=
  match p.query, p.last with
  | some q, some (q', r) => if kind.standsIn q' q then some r else none
  | _, _ => none

/-- `isPlaceholderData`. -/
def updating (p : Page R F) : Bool :=
  p.own.data.isNone && !p.isError && (p.placeholder kind).isSome

/-- `data` of `useQuery`. -/
def data (p : Page R F) : Option (ListResult R) :=
  match p.own.data with
  | some r => some r
  | none => if p.isError then none else p.placeholder kind

/-- `items`: no rows while the list is in error. -/
def items (p : Page R F) : List R :=
  if p.isError then [] else kind.dedupe (((p.data kind).map ListResult.items).getD [])

/-- `resetPaging`. -/
def resetPaging (p : Page R F) : Page R F :=
  { p with page := none, history := [], pageOffset := 0, selected := [] }

/-- Is the dialog locked? -/
def locked (p : Page R F) : Bool := kind.locks && p.removing

/-- Can the removal be confirmed? -/
def confirmable (p : Page R F) : Bool := p.dialogOpen && !p.locked kind

end Page

/-- The query of the page with a result is the last one with a result. -/
def Page.remember (p : Page R F) : Page R F :=
  match p.query, p.own.data with
  | some q, some r => { p with last := some (q, r) }
  | _, _ => p

/-- A page as it is mounted: filters from the URL, whatever the query cache has. -/
structure Page.Start (p : Page R F) : Prop where
  selected : p.selected = []
  dialogOpen : p.dialogOpen = false

/-! ## 2. The selection on the page -/

/-- Every selected key is one of a row of the result that the cache has for the query `q`, and
    there is no error of it if the removal can be confirmed. -/
def Kept (p : Page R F) (q : Option (Query F)) : Prop :=
  ∀ k ∈ p.selected, ∃ q' r, q = some q' ∧ (p.cache q').data = some r ∧
    k ∈ (kind.dedupe r.items).map kind.key ∧
    (p.confirmable kind = true → (p.cache q').error = false)

variable {kind}

theorem Kept.of_nil {p : Page R F} {q : Option (Query F)} (h : p.selected = []) : Kept kind p q := by
  intro k hk
  rw [h] at hk
  cases hk

/-- `Kept` looks at the selection, the cache and the dialog only. -/
theorem Kept.congr {p p' : Page R F} {q : Option (Query F)} (h : Kept kind p q)
    (hsel : ∀ k ∈ p'.selected, k ∈ p.selected) (hcache : p'.cache = p.cache)
    (hconf : p'.confirmable kind = true → p.confirmable kind = true) : Kept kind p' q := by
  intro k hk
  obtain ⟨q', r, hq, hd, hr, herr⟩ := h k (hsel k hk)
  refine ⟨q', r, hq, ?_, hr, fun hc => ?_⟩
  · rw [hcache]
    exact hd
  · rw [hcache]
    exact herr (hconf hc)

theorem own_of_query {p : Page R F} {q : Query F} (h : p.query = some q) : p.own = p.cache q := by
  rw [Page.own, h]
  rfl

theorem query_remember (p : Page R F) : p.remember.query = p.query := by
  unfold Page.remember
  split <;> rfl

/-- The rows of a page that is not updating are those of its own result. -/
theorem exists_own_of_mem_items {p : Page R F} (hu : p.updating kind = false) {k : Str}
    (hk : k ∈ (p.items kind).map kind.key) :
    ∃ q r, p.query = some q ∧ (p.cache q).data = some r ∧
      k ∈ (kind.dedupe r.items).map kind.key ∧ (p.cache q).error = false := by
  unfold Page.items at hk
  split at hk
  · cases hk
  · rename_i herr
    have herr' : p.isError = false := Bool.eq_false_of_not_eq_true herr
    cases hd : p.own.data with
    | some r =>
        cases hq : p.query with
        | none =>
            rw [Page.own, hq] at hd
            cases hd
        | some q =>
            have hown := own_of_query hq
            refine ⟨q, r, rfl, by rw [← hown, hd], ?_, by rw [← hown]; exact herr'⟩
            simpa [Page.data, hd] using hk
    | none =>
        -- without a result of its own and without rows that stand in there is nothing to tick
        have hnone : p.placeholder kind = none := by
          simpa [Page.updating, hd, herr'] using hu
        simp [Page.data, hd, herr', hnone, kind.dedupe_nil] at hk

/-- `toggleAll` over the keys of the rows. -/
def toggleKeys (updating : Bool) (keys : List Str) (selected : Selected) : Selected :=
  if updating then selected
  else if selected.length = keys.length ∧ 0 < keys.length then []
  else keys.foldl addKey []

theorem toggleAll_eq (updating : Bool) (rows : List WorkflowSummary) (selected : Selected) :
    toggleAll updating rows selected =
      toggleKeys updating (rows.map WorkflowSummary.key) selected := by
  simp only [toggleAll, toggleKeys, List.length_map]

theorem mem_foldl_addKey {keys : List Str} {selected : Selected} {k : Str}
    (h : k ∈ keys.foldl addKey selected) : k ∈ keys ∨ k ∈ selected := by
  induction keys generalizing selected with
  | nil => exact .inr h
  | cons x keys ih =>
      rcases ih h with hk | hk
      · exact .inl (List.mem_cons_of_mem x hk)
      · unfold addKey at hk
        split at hk
        · exact .inr hk
        · rcases List.mem_append.mp hk with hk | hk
          · exact .inr hk
          · exact .inl (List.mem_singleton.mp hk ▸ List.mem_cons_self)

/-- A click ticks a row on the page, or none. -/
theorem mem_toggleRow {updating : Bool} {selected : Selected} {key k : Str}
    (h : k ∈ toggleRow updating selected key) : k ∈ selected ∨ updating = false ∧ k = key := by
  unfold toggleRow at h
  split at h
  · exact .inl h
  · rename_i hu
    split at h
    · exact .inl (List.mem_filter.mp h).1
    · unfold addKey at h
      split at h
      · exact .inl h
      · rcases List.mem_append.mp h with h | h
        · exact .inl h
        · exact .inr ⟨Bool.eq_false_of_not_eq_true hu, List.mem_singleton.mp h⟩

theorem mem_toggleKeys {updating : Bool} {keys : List Str} {selected : Selected} {k : Str}
    (h : k ∈ toggleKeys updating keys selected) : k ∈ selected ∨ updating = false ∧ k ∈ keys := by
  unfold toggleKeys at h
  split at h
  · exact .inl h
  · rename_i hu
    split at h
    · cases h
    · exact .inr ⟨Bool.eq_false_of_not_eq_true hu, (mem_foldl_addKey h).resolve_right List.not_mem_nil⟩

/-- Ticks keep the selection on the page. -/
theorem Kept.ticks {p : Page R F} (h : Kept kind p p.query) {selected : Selected}
    (hs : ∀ k ∈ selected, k ∈ p.selected ∨
      p.updating kind = false ∧ k ∈ (p.items kind).map kind.key) :
    Kept kind { p with selected := selected } p.query := by
  intro k hk
  rcases hs k hk with hold | ⟨hu, hnew⟩
  · exact h k hold
  · obtain ⟨q, r, hq, hd, hr, herr⟩ := exists_own_of_mem_items hu hnew
    exact ⟨q, r, hq, hd, hr, fun _ => herr⟩

/-- The dialog is locked, or the selection is on the page. -/
def OnPage (kind : PageKind R F) (p : Page R F) : Prop := p.locked kind = true ∨ Kept kind p p.query

theorem OnPage.remember {p : Page R F} (h : OnPage kind p) : OnPage kind p.remember := by
  have hsame : p.remember.selected = p.selected ∧ p.remember.cache = p.cache ∧
      p.remember.dialogOpen = p.dialogOpen ∧ p.remember.removing = p.removing := by
    unfold Page.remember
    split <;> exact ⟨rfl, rfl, rfl, rfl⟩
  obtain ⟨hsel, hcache, hopen, hrem⟩ := hsame
  rcases h with h | h
  · left
    rw [Page.locked, hrem]
    exact h
  · right
    rw [query_remember]
    refine h.congr (fun k hk => hsel ▸ hk) hcache fun hc => ?_
    rwa [Page.confirmable, Page.locked, hopen, hrem] at hc

/-- Every selected key is one of a row of the result shown for the filters of the page. -/
def Visible (kind : PageKind R F) (p : Page R F) : Prop :=
  ∀ k ∈ p.selected, p.updating kind = false ∧ k ∈ (p.items kind).map kind.key

theorem OnPage.visible {p : Page R F} (h : OnPage kind p) (hconf : p.confirmable kind = true) :
    Visible kind p := by
  have hkept : Kept kind p p.query := by
    refine h.resolve_left fun hl => ?_
    simp [Page.confirmable, hl] at hconf
  intro k hk
  obtain ⟨q, r, hq, hd, hr, herr⟩ := hkept k hk
  have hown := own_of_query hq
  have herr' : p.isError = false := by
    rw [Page.isError, hown]
    exact herr hconf
  have hdata : p.own.data = some r := by rw [hown, hd]
  refine ⟨by simp [Page.updating, hdata], ?_⟩
  simpa [Page.items, herr', Page.data, hdata] using hr

/-! ## 3. Events -/

variable (kind) [DecidableEq F]

/-- What happens to a page: the user, timers and effects, the query cache, the answer to a
    removal. -/
inductive Event (R F : Type) where
  | setFacet (f : F)
  | setApp (app : Str)
  | keystroke (search : Str)
  | debounce
  | storeChange (id : Str)
  | storesResolved (ids : List Str) (persisted active : Option Str)
  | defaultApp (urlApp : Str) (activeApp : Option Str)
  | next
  | prev
  | arrive (q : Query F) (r : ListResult R)
  | fail (q : Query F)
  | refetch (q : Query F)
  | evict (q : Query F)
  | tickRow (row : R)
  | tickAll
  | openDialog
  | cancel
  | confirm
  | settled (ok : Bool)

/-- The store that the effect over the store list selects. -/
def resolveStore (selected : Option Str) (ids : List Str) (persisted active : Option Str) :
    Option Str :=
  match ids with
  | [] => selected
  | id :: _ =>
      if selected.any fun s => decide (s ∈ ids) then selected
      else
        match persisted.filter fun s => decide (s ∈ ids) with
        | some s => some s
        | none => some (active.getD id)

/-- One cache entry replaced. -/
def Page.store (p : Page R F) (q : Query F) (c : Cached R) : Page R F :=
  { p with cache := fun q' => if q' = q then c else p.cache q' }

/-- What an event does. -/
def Page.act (p : Page R F) : Event R F → Page R F
  | .setFacet f => { p with facet := f }.resetPaging
  | .setApp app => { p with selectedApp := app }.resetPaging
  | .keystroke search => { p with searchInput := search }.resetPaging
  | .debounce => { p with debouncedSearch := p.searchInput }
  | .storeChange id => { p with selectedStore := some id, selectedApp := [] }.resetPaging
  | .storesResolved ids persisted active =>
      { p with selectedStore := resolveStore p.selectedStore ids persisted active }
  | .defaultApp urlApp activeApp =>
      if p.defaultApplied then p
      else if urlApp ≠ [] then { p with defaultApplied := true }
      else { p with selectedApp := activeApp.getD p.selectedApp, defaultApplied := true }
  | .next =>
      if p.isError || p.updating kind then p
      else
        match (p.data kind).bind ListResult.nextToken with
        | none => p
        | some token =>
            { p with
              history := p.history ++ [(p.page, p.pageOffset)]
              pageOffset := p.pageOffset + (p.items kind).length
              page := some token
              selected := [] }
  | .prev =>
      if p.updating kind then p
      else
        match p.history.getLast? with
        | none => p
        | some (token, offset) =>
            { p with page := token, pageOffset := offset, history := p.history.dropLast
                     selected := [] }
  | .arrive q r => p.store q ⟨some r, false⟩
  | .fail q => p.store q { p.cache q with error := true }
  -- a fetch that begins forgets the error of a query that never had a result
  | .refetch q => if (p.cache q).data.isSome then p else p.store q {}
  | .evict q => if p.query = some q then p else p.store q {}
  | .tickRow row =>
      -- only a row that is on the page can be ticked
      if kind.key row ∈ (p.items kind).map kind.key then
        { p with selected := toggleRow (p.updating kind) p.selected (kind.key row) }
      else p
  | .tickAll =>
      if p.items kind = [] then p
      else { p with selected := toggleKeys (p.updating kind) ((p.items kind).map kind.key) p.selected }
  | .openDialog => if p.selected ≠ [] ∧ p.isError = false then { p with dialogOpen := true } else p
  | .cancel => if p.locked kind then p else { p with dialogOpen := false }
  | .confirm => if p.confirmable kind then { p with removing := true } else p
  | .settled ok =>
      { p with removing := false, dialogOpen := false, selected := if ok then [] else p.selected }

/-- A page after an event. -/
def Page.after (p : Page R F) (e : Event R F) : Page R F := (p.act kind e).remember

/-- **The events that take no selected row off the page**, unless the dialog is locked. The debounce
    and the two effects change the query without clearing the selection, so the new query must have
    a result with the selected rows; so must a result that arrives, and a removal that fails. No
    fetch fails while a selection can be confirmed. -/
def Calm (p : Page R F) : Event R F → Prop
  | .debounce => p.locked kind = true ∨ (p.debouncedSearch ≠ p.searchInput →
      Kept kind p { p with debouncedSearch := p.searchInput }.query)
  | .storesResolved ids persisted active =>
      p.locked kind = true ∨ (p.selectedStore ≠ resolveStore p.selectedStore ids persisted active →
        Kept kind p
          { p with selectedStore := resolveStore p.selectedStore ids persisted active }.query)
  | .defaultApp urlApp activeApp =>
      p.locked kind = true ∨ (p.defaultApplied = false → urlApp = [] →
        p.selectedApp ≠ activeApp.getD p.selectedApp →
        Kept kind p { p with selectedApp := activeApp.getD p.selectedApp }.query)
  | .arrive q r => p.locked kind = true ∨ (p.query = some q →
      ∀ k ∈ p.selected, k ∈ (kind.dedupe r.items).map kind.key)
  | .fail q => p.query = some q → p.confirmable kind = true → p.selected = []
  | .settled ok => p.locked kind = true → ok = false → Kept kind { p with dialogOpen := false } p.query
  | _ => True

variable {kind}

/-! ## 4. Every calm event keeps it there -/

/-- Only the answer to the removal ends it. -/
theorem removing_act {p : Page R F} {e : Event R F} (he : ∀ ok, e ≠ .settled ok)
    (h : p.removing = true) : (p.act kind e).removing = true := by
  cases e with
  | settled ok => exact absurd rfl (he ok)
  | defaultApp urlApp activeApp =>
      simp only [Page.act]
      split
      · exact h
      · split <;> exact h
  | next =>
      simp only [Page.act]
      split
      · exact h
      · split <;> exact h
  | prev =>
      simp only [Page.act]
      split
      · exact h
      · split <;> exact h
  | confirm =>
      simp only [Page.act]
      split
      · rfl
      · exact h
  | refetch q => simp only [Page.act]; split <;> exact h
  | evict q => simp only [Page.act]; split <;> exact h
  | tickRow row => simp only [Page.act]; split <;> exact h
  | tickAll => simp only [Page.act]; split <;> exact h
  | openDialog => simp only [Page.act]; split <;> exact h
  | cancel => simp only [Page.act]; split <;> exact h
  | _ => exact h

/-- What is kept when the page's own query does not change its answer. -/
theorem Kept.store {p : Page R F} (h : Kept kind p p.query) {q : Query F} (hq : p.query ≠ some q)
    (c : Cached R) : Kept kind (p.store q c) p.query := by
  intro k hk
  obtain ⟨q', r, hq', hd, hr, herr⟩ := h k hk
  have hne : q' ≠ q := fun heq => hq (heq ▸ hq')
  refine ⟨q', r, hq', ?_, hr, fun hc => ?_⟩
  · simpa [Page.store, hne] using hd
  · simpa [Page.store, hne] using herr hc

/-- **A calm event keeps the selection on the page.** -/
theorem Kept.after {p : Page R F} (h : Kept kind p p.query) (hl : p.locked kind = false)
    {e : Event R F} (hc : Calm kind p e) : OnPage kind (p.act kind e) := by
  have hunlocked : ∀ {P : Prop}, p.locked kind = true ∨ P → P :=
    fun ho => ho.resolve_left (by simp [hl])
  cases e with
  | setFacet f => exact .inr (Kept.of_nil rfl)
  | setApp app => exact .inr (Kept.of_nil rfl)
  | keystroke search => exact .inr (Kept.of_nil rfl)
  | storeChange id => exact .inr (Kept.of_nil rfl)
  | debounce =>
      right
      by_cases hs : p.debouncedSearch = p.searchInput
      · have hsame : (p.act kind .debounce).query = p.query := by
          simp only [Page.act, Page.query, hs]
        rw [hsame]
        exact h
      · exact hunlocked hc hs
  | storesResolved ids persisted active =>
      right
      by_cases hs : p.selectedStore = resolveStore p.selectedStore ids persisted active
      · have hsame : (p.act kind (.storesResolved ids persisted active)).query = p.query := by
          simp only [Page.act, Page.query, ← hs]
        rw [hsame]
        exact h
      · exact hunlocked hc hs
  | defaultApp urlApp activeApp =>
      right
      simp only [Page.act]
      split
      · exact h
      · rename_i hd
        split
        · exact h
        · rename_i hurl
          by_cases hs : p.selectedApp = activeApp.getD p.selectedApp
          · have hsame : ({ p with
                selectedApp := activeApp.getD p.selectedApp, defaultApplied := true }).query =
                p.query := by
              simp only [Page.query, ← hs]
            rw [hsame]
            exact h
          · exact hunlocked hc (Bool.eq_false_of_not_eq_true hd) (not_not.mp hurl) hs
  | next =>
      right
      simp only [Page.act]
      split
      · exact h
      · split
        · exact h
        · exact Kept.of_nil rfl
  | prev =>
      right
      simp only [Page.act]
      split
      · exact h
      · split
        · exact h
        · exact Kept.of_nil rfl
  | arrive q r =>
      right
      by_cases hq : p.query = some q
      · intro k hk
        exact ⟨q, r, hq, by simp [Page.act, Page.store], hunlocked hc hq k hk,
          fun _ => by simp [Page.act, Page.store]⟩
      · exact h.store hq _
  | fail q =>
      right
      by_cases hq : p.query = some q
      · intro k hk
        obtain ⟨q', r, hq', hd, hr, -⟩ := h k hk
        obtain rfl : q' = q := Option.some.inj (hq'.symm.trans hq)
        refine ⟨q', r, hq', by simpa [Page.act, Page.store] using hd, hr, fun hconf => ?_⟩
        -- a fetch fails only where nothing can be confirmed
        have hnil : p.selected = [] := hc hq hconf
        have hmem : k ∈ p.selected := hk
        rw [hnil] at hmem
        cases hmem
      · exact h.store hq _
  | refetch q =>
      right
      simp only [Page.act]
      split
      · exact h
      · rename_i hd
        by_cases hq : p.query = some q
        · intro k hk
          obtain ⟨q', r, hq', hr, -⟩ := h k hk
          obtain rfl : q' = q := Option.some.inj (hq'.symm.trans hq)
          exact absurd (by rw [hr]; rfl) hd
        · exact h.store hq _
  | evict q =>
      right
      simp only [Page.act]
      split
      · exact h
      · rename_i hq
        exact h.store hq _
  | tickRow row =>
      right
      simp only [Page.act]
      split
      · rename_i hrow
        refine h.ticks fun k hk => ?_
        rcases mem_toggleRow hk with hk | ⟨hu, rfl⟩
        · exact .inl hk
        · exact .inr ⟨hu, hrow⟩
      · exact h
  | tickAll =>
      right
      simp only [Page.act]
      split
      · exact h
      · exact h.ticks fun k hk => mem_toggleKeys hk
  | openDialog =>
      right
      simp only [Page.act]
      split
      · rename_i hg
        intro k hk
        obtain ⟨q, r, hq, hd, hr, -⟩ := h k hk
        refine ⟨q, r, hq, hd, hr, fun _ => ?_⟩
        have herr := hg.2
        rwa [Page.isError, own_of_query hq] at herr
      · exact h
  | cancel =>
      right
      simp only [Page.act]
      split
      · exact h
      · exact h.congr (fun k hk => hk) rfl fun hconf => by cases hconf
  | confirm =>
      simp only [Page.act]
      split
      · rename_i hg
        right
        exact h.congr (fun k hk => hk) rfl fun _ => hg
      · exact .inr h
  | settled ok =>
      right
      refine h.congr (fun k hk => ?_) rfl fun hconf => by cases hconf
      cases ok with
      | true => cases hk
      | false => exact hk

theorem OnPage.after {p : Page R F} (h : OnPage kind p) {e : Event R F} (hc : Calm kind p e) :
    OnPage kind (p.after kind e) := by
  refine OnPage.remember ?_
  cases hl : p.locked kind with
  | false => exact Kept.after (h.resolve_left (by simp [hl])) hl hc
  | true =>
      have hboth := Bool.and_eq_true _ _ ▸ hl
      by_cases he : ∃ ok, e = .settled ok
      · obtain ⟨ok, rfl⟩ := he
        right
        cases ok with
        | true => exact Kept.of_nil rfl
        | false => exact (hc hl rfl).congr (fun k hk => hk) rfl fun hconf => by cases hconf
      · left
        have hrem : (p.act kind e).removing = true :=
          removing_act (fun ok heq => he ⟨ok, heq⟩) hboth.2
        rw [Page.locked, hrem, hboth.1]
        rfl

/-- What a page can remove in a run of calm events. -/
theorem visible_of_run {p₀ p : Page R F} {l : List (Page R F × Event R F)} (h0 : p₀.Start)
    (hrun : Trace (fun p e p' => p' = p.after kind e) p₀ l p) (hcalm : ∀ x ∈ l, Calm kind x.1 x.2)
    (hconf : p.confirmable kind = true) : Visible kind p := by
  have hstart : OnPage kind p₀ := .inr (Kept.of_nil h0.selected)
  have hon : OnPage kind p := by
    refine hrun.inv_of hstart (fun p e p' h hc hs => ?_) hcalm
    subst hs
    exact h.after hc
  exact hon.visible hconf

end Machine

/-! ## 5. The two pages -/

/-- What only the Workflows page filters by. -/
structure WorkflowFacet where
  activeStatus : Option Workflow.Status
  showChildren : Bool
  deriving DecidableEq

/-- `keepPreviousWithinStore`: rows of another store never stand in. -/
def keepPreviousWithinStore {F : Type} (prev new : Query F) : Bool := decide (prev.store = new.store)

/-- The Workflows page. -/
def workflowsPage : PageKind WorkflowSummary WorkflowFacet where
  key := WorkflowSummary.key
  dedupe := dedupeWorkflows
  standsIn := keepPreviousWithinStore
  locks := true
  dedupe_nil := rfl

/-- The State page, which filters by `includeInternal`; no rows stand in on it, and its dialog is
    not locked. -/
def statePage : PageKind State.Item Bool where
  key := State.Item.key
  dedupe := id
  standsIn _ _ := false
  locks := false
  dedupe_nil := rfl

/-- **Whatever the dialog of a page can remove is on the page**, in every run of calm events: each
    selected key is one of a row of the result shown for the filters of the page. -/
theorem selected_visible (p₀ p : Page WorkflowSummary WorkflowFacet)
    (l : List (Page WorkflowSummary WorkflowFacet × Event WorkflowSummary WorkflowFacet))
    (q₀ q : Page State.Item Bool) (m : List (Page State.Item Bool × Event State.Item Bool)) :
    (p₀.Start → Trace (fun p e p' => p' = p.after workflowsPage e) p₀ l p →
      (∀ x ∈ l, Calm workflowsPage x.1 x.2) → p.confirmable workflowsPage = true →
      Visible workflowsPage p) ∧
    (q₀.Start → Trace (fun q e q' => q' = q.after statePage e) q₀ m q →
      (∀ x ∈ m, Calm statePage x.1 x.2) → q.confirmable statePage = true →
      Visible statePage q) :=
  ⟨visible_of_run, visible_of_run⟩

/-- A page as it is mounted, with an empty query cache. -/
def mountedWith {R F : Type} (facet : F) : Page R F where
  facet := facet
  selectedApp := []
  searchInput := []
  debouncedSearch := []
  page := none
  history := []
  pageOffset := 0
  selectedStore := none
  defaultApplied := true
  selected := []
  dialogOpen := false
  removing := false
  cache _ := {}
  last := none

/-- A Workflows page as it is mounted. -/
def mounted : Page WorkflowSummary WorkflowFacet := mountedWith ⟨none, true⟩

/-- A workflow of the app `a`. -/
def rowOf (id : Char) : WorkflowSummary := ⟨"a".toList, [id], .completed⟩

/-- The query for a search in the store `s`. -/
def queryFor (search : Str) : Query WorkflowFacet := ⟨"s".toList, [], search, none, ⟨none, true⟩⟩

/-- A row is ticked and the dialog opened. -/
def tickAndOpen : List (Event WorkflowSummary WorkflowFacet) :=
  [.storesResolved ["s".toList] none none, .arrive (queryFor []) ⟨[rowOf 'x', rowOf 'y'], none⟩,
    .tickRow (rowOf 'x'), .openDialog]

theorem selected_visible_ticked :
    (tickAndOpen.foldl (Page.after workflowsPage) mounted).selected = [(rowOf 'x').key] ∧
      Visible workflowsPage (tickAndOpen.foldl (Page.after workflowsPage) mounted) := by
  refine ⟨rfl, (selected_visible mounted _ _ (mountedWith true) (mountedWith true) []).1 ⟨rfl, rfl⟩
    (Trace.of_visited (Page.after workflowsPage) mounted tickAndOpen) (fun x hx => ?_) rfl⟩
  rcases List.mem_cons.mp hx with rfl | hx
  · exact .inr fun _ => Kept.of_nil rfl
  rcases List.mem_cons.mp hx with rfl | hx
  · exact .inr fun _ k hk => absurd hk List.not_mem_nil
  rcases List.mem_cons.mp hx with rfl | hx
  · exact trivial
  rw [List.mem_singleton.mp hx]
  exact trivial

/-- A keystroke clears the selection; a row of the list that is still shown is ticked before the
    debounce fires; the result of the search comes, and the dialog is opened. -/
def tickBeforeDebounce : List (Event WorkflowSummary WorkflowFacet) :=
  [.storesResolved ["s".toList] none none, .arrive (queryFor []) ⟨[rowOf 'x', rowOf 'y'], none⟩,
    .keystroke "y".toList, .tickRow (rowOf 'x'), .debounce, .arrive (queryFor "y".toList) ⟨[rowOf 'y'], none⟩,
    .openDialog]

/-- **A row off the page can be removed**: the page shows `y` for the search `y`, the selection is
    `x`, and the removal can be confirmed. -/
theorem hidden_row_selected :
    mounted.Start ∧
      Trace (fun p e p' => p' = p.after workflowsPage e) mounted
        (visited (Page.after workflowsPage) mounted tickBeforeDebounce)
        (tickBeforeDebounce.foldl (Page.after workflowsPage) mounted) ∧
      (tickBeforeDebounce.foldl (Page.after workflowsPage) mounted).confirmable workflowsPage = true ∧
      (tickBeforeDebounce.foldl (Page.after workflowsPage) mounted).selected = [(rowOf 'x').key] ∧
      (tickBeforeDebounce.foldl (Page.after workflowsPage) mounted).items workflowsPage =
        [rowOf 'y'] ∧
      ¬ Visible workflowsPage (tickBeforeDebounce.foldl (Page.after workflowsPage) mounted) := by
  refine ⟨⟨rfl, rfl⟩, Trace.of_visited _ _ _, rfl, rfl, rfl, fun hv => ?_⟩
  have hmem := (hv (rowOf 'x').key (List.mem_singleton_self _)).2
  have hnot : (rowOf 'x').key ∉ [(rowOf 'y').key] := by decide
  exact hnot hmem

end DevDashboard.Web
