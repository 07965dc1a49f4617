/-
  File:      DevDashboard/Lifecycle/Overlay.lean
  Subject:   STOPPED APPS OVER THE SCAN (`pkg/lifecycle/registry.go`, `pkg/lifecycle/overlay.go`).

  The registry keeps what the dashboard stopped. The overlay corrects live instances by it and
  adds the stopped ones that no scan sees. Entries are of instances outside containers, so an
  entry's key is its app-id and the registry's own fallback to the app-id finds nothing more
  (`Registry.get_eq`).

  * `applyAll_get` -- what a listing leaves of the entry of a key;
  * `mem_keepShown_of_not_hidden`, `not_hidden_of_mem_keepShown` -- what the suppressed keys hide;
  * `get_agrees_iff` -- when `Get` under a listed key gives what the listing shows.
-/
import DevDashboard.Discovery.Instance
import DevDashboard.Lib.Dict

namespace DevDashboard.Lifecycle

open Lib Discovery
open Cmd (Source)

/-! ## 1. The registry -/

inductive Target where
  | app
  | daprd
  | all
  deriving DecidableEq

structure ProcSnapshot where
  pid : Nat
  argv : List Str := []
  dir : Str := []
  logPath : Str := []

/-- `Entry`: a stopped instance, never one of a container. -/
structure Entry where
  inst : Instance
  procs : Target → Option ProcSnapshot
  host : inContainer inst.source = false

namespace Entry

def key (e : Entry) : Str := e.inst.instanceKey

theorem key_eq_appID (e : Entry) : e.key = e.inst.appID := e.inst.key_host e.host

/-- `len(e.Procs) == 0`. -/
def bare (e : Entry) : Bool :=
  (e.procs .app).isNone && (e.procs .daprd).isNone && (e.procs .all).isNone

/-- `delete(e.Procs, t)`. -/
def without (e : Entry) (t : Target) : Entry :=
  { e with procs := fun u => if u = t then none else e.procs u }

end Entry

/-- `Registry`: each entry under the key of its instance. -/
structure Registry where
  entries : Dict Str Entry
  suppressed : List Str
  keyed : ∀ k e, entries.get k = some e → e.key = k

namespace Registry

/-- `NewRegistry`. -/
def new : Registry := ⟨.empty, [], fun k e h => by simp at h⟩

/-- An entry written under its key. -/
def put (r : Registry) (e : Entry) : Registry where
  entries := r.entries.put e.key e
  suppressed := r.suppressed
  keyed := by
    intro k e' he
    by_cases hk : k = e.key
    · subst hk
      rw [Dict.get_put_self] at he
      rw [← Option.some.inj he]
    · rw [Dict.get_put_of_ne _ _ hk] at he
      exact r.keyed k e' he

/-- `RecordStop`. -/
def recordStop (r : Registry) (i : Instance) (h : inContainer i.source = false)
    (snaps : Target → Option ProcSnapshot) : Registry :=
  match r.entries.get i.instanceKey with
  | some e => r.put ⟨i, fun t => (snaps t).or (e.procs t), h⟩
  | none => r.put ⟨i, snaps, h⟩

/-- `Get`: by key, then the first entry with the app-id. -/
def get (r : Registry) (key : Str) : Option Entry :=
  match r.entries.get key with
  | some e => some e
  | none => (r.entries.entries.find? fun x => decide (x.2.inst.appID = key)).map Prod.snd

/-- `Drop`. -/
def drop (r : Registry) (key : Str) : Registry where
  entries := r.entries.erase key
  suppressed := r.suppressed
  keyed := by
    intro k e he
    by_cases hk : k = key
    · rw [hk, Dict.get_erase_self] at he
      cases he
    · rw [Dict.get_erase_of_ne _ hk] at he
      exact r.keyed k e he

/-- `DropTarget`: the entry goes with its last target. -/
def dropTarget (r : Registry) (key : Str) (t : Target) : Registry :=
  match r.entries.get key with
  | none => r
  | some e => if (e.without t).bare then r.drop key else r.put (e.without t)

/-- `Suppress`. -/
def suppress (r : Registry) (key : Str) : Registry :=
  { r with suppressed := key :: r.suppressed.filter fun k => decide (k ≠ key) }

/-- `Unsuppress`. -/
def unsuppress (r : Registry) (key : Str) : Registry :=
  { r with suppressed := r.suppressed.filter fun k => decide (k ≠ key) }

/-- `IsSuppressed`. -/
def isSuppressed (r : Registry) (key : Str) : Bool := decide (key ∈ r.suppressed)

/-- **The fallback to the app-id finds nothing more.** -/
theorem get_eq (r : Registry) (key : Str) : r.get key = r.entries.get key := by
  unfold get
  cases hg : r.entries.get key with
  | some e => rfl
  | none =>
      have hnone : (r.entries.entries.find? fun x => decide (x.2.inst.appID = key)) = none := by
        refine List.find?_eq_none.mpr fun x hx happ => ?_
        have hread := Dict.mem_entries_iff.mp hx
        have hkey := r.keyed x.1 x.2 hread
        rw [x.2.key_eq_appID, of_decide_eq_true happ] at hkey
        rw [← hkey, hg] at hread
        cases hread
      rw [hnone]
      rfl

/-- What `DropTarget` leaves. -/
theorem get_dropTarget (r : Registry) (key k : Str) (t : Target) :
    (r.dropTarget key t).entries.get k =
      if k = key then
        (r.entries.get key).bind fun e => if (e.without t).bare then none else some (e.without t)
      else r.entries.get k := by
  unfold dropTarget
  cases he : r.entries.get key with
  | none =>
      by_cases hk : k = key
      · rw [if_pos hk, hk]
        exact he
      · rw [if_neg hk]
  | some e =>
      have hkey : (e.without t).key = key := r.keyed key e he
      by_cases hb : (e.without t).bare = true
      · by_cases hk : k = key
        · simp [hb, hk, drop]
        · simp only [hb, if_true, if_neg hk]
          exact Dict.get_erase_of_ne _ hk
      · by_cases hk : k = key
        · simp [hb, hk, put, hkey]
        · simp only [hb, if_false, if_neg hk, Bool.false_eq_true, put, hkey]
          exact Dict.get_put_of_ne _ _ hk

/-- Every entry is one that was there, with at most its snapshots. -/
def Shrinks (r' r : Registry) : Prop :=
  ∀ k e', r'.entries.get k = some e' →
    ∃ e, r.entries.get k = some e ∧ e'.inst = e.inst ∧ ∀ t s, e'.procs t = some s → e.procs t = some s

theorem Shrinks.refl (r : Registry) : Shrinks r r := fun _ e h => ⟨e, h, rfl, fun _ _ hs => hs⟩

theorem Shrinks.trans {r r' r'' : Registry} (h : Shrinks r'' r') (h' : Shrinks r' r) :
    Shrinks r'' r := by
  intro k e'' he''
  obtain ⟨e', he', hi', hp'⟩ := h k e'' he''
  obtain ⟨e, he, hi, hp⟩ := h' k e' he'
  exact ⟨e, he, hi'.trans hi, fun t s hs => hp t s (hp' t s hs)⟩

theorem shrinks_dropTarget (r : Registry) (key : Str) (t : Target) :
    Shrinks (r.dropTarget key t) r := by
  intro k e' he'
  rw [get_dropTarget] at he'
  split at he'
  · rename_i hk
    obtain ⟨e, he, hw⟩ := Option.bind_eq_some_iff.mp he'
    split at hw
    · cases hw
    · cases hw
      refine ⟨e, hk ▸ he, rfl, fun u s hs => ?_⟩
      simp only [Entry.without] at hs
      split at hs
      · cases hs
      · exact hs
  · exact ⟨e', he', rfl, fun _ _ hs => hs⟩

theorem suppressed_dropTarget (r : Registry) (key : Str) (t : Target) :
    (r.dropTarget key t).suppressed = r.suppressed := by
  unfold dropTarget
  split
  · rfl
  · split <;> rfl

end Registry

/-! ## 2. `applyEntry` and `synthesize` -/

/-- Has the process of a snapshot come back under another PID? -/
def restarted (snap : Option ProcSnapshot) (pid : Nat) : Bool :=
  match snap with
  | some s => decide (pid ≠ 0 ∧ pid ≠ s.pid)
  | none => false

/-- `DropTarget`, where the process has come back. -/
def dropStale (r : Registry) (key : Str) (t : Target) (snap : Option ProcSnapshot) (pid : Nat) :
    Registry :=
  if restarted snap pid then r.dropTarget key t else r

/-- An instance whose app is shown as stopped. -/
def stoppedApp (i : Instance) : Instance :=
  { i with appStatus := .stopped, appPID := 0, appStartedAt := [], orphan_stopped := fun _ => rfl }

/-- `applyEntry`. -/
def applyEntry (r : Registry) (i : Instance) : Instance × Registry :=
  match r.get i.instanceKey with
  | none => (i, r)
  | some e =>
      if inContainer i.source then (i, r)
      else
        let r₁ := dropStale r i.instanceKey .daprd (e.procs .daprd) i.daprdPID
        let r₂ := dropStale r₁ i.instanceKey .all (e.procs .all) i.cliPID
        match e.procs .app with
        | none => (i, r₂)
        | some snap =>
            if i.appPID ≠ 0 ∧ i.appPID ≠ snap.pid then (i, r₂.dropTarget i.instanceKey .app)
            else (stoppedApp i, r₂)

/-- `fullyStopped`. -/
def fullyStopped (i : Instance) : Bool :=
  decide (i.appStatus = .stopped ∧ i.daprdStatus = .stopped)

/-- An entry's instance, without what only a live sidecar has. -/
def withoutSidecar (i : Instance) : Instance :=
  { i with
    health := .unknown, sidecarReachable := false, metadataOK := false
    daprdStatus := .stopped, daprdPID := 0, daprdStartedAt := [], cliPID := 0
    age := [], created := [], actors := [], subscriptions := [], components := []
    resiliencies := [], httpEndpoints := [], enabledFeatures := []
    runtimeVersion := [], placement := [], pid_container := fun _ => rfl }

/-- `synthesize`; `alive` is the process controller's test (without one, nothing is alive). -/
def synthesize (alive : Nat → Bool) (e : Entry) : Instance :=
  if (e.procs .app).isSome || !(decide (e.inst.appPID ≠ 0) && alive e.inst.appPID) then
    stoppedApp (withoutSidecar e.inst)
  else withoutSidecar e.inst

/-- Whether an entry has the app of an instance shown as stopped. -/
def stopsApp (e : Option Entry) (i : Instance) : Bool :=
  match e with
  | none => false
  | some e => !inContainer i.source && (e.procs .app).isSome && !restarted (e.procs .app) i.appPID

/-- What `applyEntry` shows. -/
theorem applyEntry_fst (r : Registry) (i : Instance) :
    (applyEntry r i).1 = if stopsApp (r.entries.get i.instanceKey) i then stoppedApp i else i := by
  unfold applyEntry
  rw [r.get_eq]
  cases r.entries.get i.instanceKey with
  | none => rfl
  | some e =>
      have hstops : stopsApp (some e) i =
          (!inContainer i.source && (e.procs .app).isSome && !restarted (e.procs .app) i.appPID) := rfl
      rw [hstops]
      simp only
      by_cases hc : inContainer i.source = true
      · rw [if_pos hc, hc]
        rfl
      · rw [if_neg hc, Bool.eq_false_of_not_eq_true hc]
        generalize dropStale (dropStale r i.instanceKey .daprd (e.procs .daprd) i.daprdPID)
          i.instanceKey .all (e.procs .all) i.cliPID = r₂
        cases e.procs .app with
        | none => rfl
        | some snap =>
            by_cases hp : i.appPID ≠ 0 ∧ i.appPID ≠ snap.pid
            · simp only [restarted, if_pos hp, decide_eq_true hp]
              rfl
            · simp only [restarted, if_neg hp, decide_eq_false hp]
              rfl

/-- What it leaves of the registry. -/
theorem applyEntry_snd (r : Registry) (i : Instance) :
    (applyEntry r i).2 =
      match r.entries.get i.instanceKey with
      | none => r
      | some e =>
          if inContainer i.source then r
          else
            dropStale (dropStale (dropStale r i.instanceKey .daprd (e.procs .daprd) i.daprdPID)
              i.instanceKey .all (e.procs .all) i.cliPID) i.instanceKey .app (e.procs .app)
              i.appPID := by
  unfold applyEntry
  rw [r.get_eq]
  cases r.entries.get i.instanceKey with
  | none => rfl
  | some e =>
      simp only
      by_cases hc : inContainer i.source = true
      · rw [if_pos hc, if_pos hc]
      · rw [if_neg hc, if_neg hc]
        generalize dropStale (dropStale r i.instanceKey .daprd (e.procs .daprd) i.daprdPID)
          i.instanceKey .all (e.procs .all) i.cliPID = r₂
        cases e.procs .app with
        | none => rfl
        | some snap =>
            by_cases hp : i.appPID ≠ 0 ∧ i.appPID ≠ snap.pid
            · simp only [dropStale, restarted, if_pos hp, decide_eq_true hp, if_true]
            · simp only [dropStale, restarted, if_neg hp, decide_eq_false hp, Bool.false_eq_true,
                if_false]

theorem key_applyEntry (r : Registry) (i : Instance) :
    (applyEntry r i).1.instanceKey = i.instanceKey := by
  rw [applyEntry_fst]
  split <;> rfl

theorem get_dropStale_of_ne {r : Registry} {key k : Str} (t : Target) (snap : Option ProcSnapshot)
    (pid : Nat) (h : k ≠ key) : (dropStale r key t snap pid).entries.get k = r.entries.get k := by
  unfold dropStale
  split
  · rw [Registry.get_dropTarget, if_neg h]
  · rfl

theorem shrinks_dropStale (r : Registry) (key : Str) (t : Target) (snap : Option ProcSnapshot)
    (pid : Nat) : Registry.Shrinks (dropStale r key t snap pid) r := by
  unfold dropStale
  split
  · exact Registry.shrinks_dropTarget r key t
  · exact .refl r

/-- Another instance's entry stays as it is. -/
theorem get_applyEntry_of_ne {r : Registry} {i : Instance} {k : Str} (h : k ≠ i.instanceKey) :
    (applyEntry r i).2.entries.get k = r.entries.get k := by
  rw [applyEntry_snd]
  split
  · rfl
  · split
    · rfl
    · rw [get_dropStale_of_ne _ _ _ h, get_dropStale_of_ne _ _ _ h, get_dropStale_of_ne _ _ _ h]

theorem shrinks_applyEntry (r : Registry) (i : Instance) :
    Registry.Shrinks (applyEntry r i).2 r := by
  rw [applyEntry_snd]
  split
  · exact .refl r
  · split
    · exact .refl r
    · exact (shrinks_dropStale _ _ _ _ _).trans
        ((shrinks_dropStale _ _ _ _ _).trans (shrinks_dropStale _ _ _ _ _))

theorem suppressed_applyEntry (r : Registry) (i : Instance) :
    (applyEntry r i).2.suppressed = r.suppressed := by
  have hdrop : ∀ (r : Registry) k t snap pid, (dropStale r k t snap pid).suppressed = r.suppressed := by
    intro r k t snap pid
    unfold dropStale
    split
    · exact r.suppressed_dropTarget k t
    · rfl
  rw [applyEntry_snd]
  split
  · rfl
  · split
    · rfl
    · rw [hdrop, hdrop, hdrop]

theorem key_synthesize (alive : Nat → Bool) (e : Entry) :
    (synthesize alive e).instanceKey = e.key := by
  unfold synthesize
  split <;> rfl

/-! ## 3. `List` and `Get` -/

/-- The first loop of `List`: every live instance against its entry. -/
def applyAll : Registry → List Instance → List Instance × Registry
  | r, [] => ([], r)
  | r, i :: items =>
      let (i', r₁) := applyEntry r i
      let (items', r₂) := applyAll r₁ items
      (i' :: items', r₂)

/-- The suppression loop of `List`. -/
def keepShown : Registry → List Instance → List Instance × Registry
  | r, [] => ([], r)
  | r, i :: items =>
      if r.isSuppressed i.instanceKey then
        if fullyStopped i then keepShown r items
        else
          let (shown, r') := keepShown (r.unsuppress i.instanceKey) items
          (i :: shown, r')
      else
        let (shown, r') := keepShown r items
        (i :: shown, r')

/-- The stopped instances that are not live. -/
def ghosts (alive : Nat → Bool) (liveKeys : List Str) (r : Registry) : List Instance :=
  (r.entries.entries.filter fun x => decide (x.2.key ∉ liveKeys)).map fun x => synthesize alive x.2

/-- `overlay.List` over the instances of a scan. -/
def overlayList (alive : Nat → Bool) (live : List Instance) (r : Registry) :
    List Instance × Registry :=
  let items := list live
  let (items', r₁) := applyAll r items
  let (shown, r₂) := keepShown r₁ (items' ++ ghosts alive (items.map Instance.instanceKey) r₁)
  (sortInstances shown, r₂)

/-- `overlay.Get`; `none` is `ErrNotFound`. -/
def overlayGet (alive : Nat → Bool) (live : List Instance) (r : Registry) (key : Str) :
    Option (Instance × Registry) :=
  match Discovery.get live key with
  | some i => some (applyEntry r i)
  | none => (r.get key).map fun e => (synthesize alive e, r)

/-! ## 4. What the loops of a listing do -/

theorem keys_applyAll (r : Registry) (items : List Instance) :
    (applyAll r items).1.map Instance.instanceKey = items.map Instance.instanceKey := by
  induction items generalizing r with
  | nil => rfl
  | cons i items ih => simp only [applyAll, List.map_cons, key_applyEntry, ih]

/-- An entry of no live instance stays as it is. -/
theorem applyAll_get {r : Registry} {items : List Instance} {k : Str}
    (h : k ∉ items.map Instance.instanceKey) :
    (applyAll r items).2.entries.get k = r.entries.get k := by
  induction items generalizing r with
  | nil => rfl
  | cons i items ih =>
      rw [List.map_cons, List.mem_cons, not_or] at h
      simp only [applyAll]
      rw [ih h.2, get_applyEntry_of_ne h.1]

theorem shrinks_applyAll (r : Registry) (items : List Instance) :
    Registry.Shrinks (applyAll r items).2 r := by
  induction items generalizing r with
  | nil => exact .refl r
  | cons i items ih => exact (ih _).trans (shrinks_applyEntry r i)

theorem suppressed_applyAll (r : Registry) (items : List Instance) :
    (applyAll r items).2.suppressed = r.suppressed := by
  induction items generalizing r with
  | nil => rfl
  | cons i items ih =>
      simp only [applyAll]
      rw [ih, suppressed_applyEntry]

/-- **With distinct keys every live instance meets its entry as it was before the listing.** -/
theorem mem_applyAll {r : Registry} {items : List Instance}
    (hnd : (items.map Instance.instanceKey).Nodup) {x : Instance} (h : x ∈ (applyAll r items).1) :
    ∃ i ∈ items, x = (applyEntry r i).1 := by
  induction items generalizing r with
  | nil => cases h
  | cons i items ih =>
      obtain ⟨hi, hnd⟩ := List.nodup_cons.mp hnd
      rcases List.mem_cons.mp h with rfl | h
      · exact ⟨i, List.mem_cons_self, rfl⟩
      · obtain ⟨j, hj, hx⟩ := @ih (applyEntry r i).2 hnd h
        have hne : j.instanceKey ≠ i.instanceKey := fun he => hi (he ▸ List.mem_map_of_mem hj)
        refine ⟨j, List.mem_cons_of_mem i hj, ?_⟩
        rw [hx, applyEntry_fst, applyEntry_fst, get_applyEntry_of_ne hne]

/-- Every live instance meets its entry, less what the ones before it dropped. -/
theorem exists_applyEntry_of_mem {r : Registry} {items : List Instance} {x : Instance}
    (h : x ∈ (applyAll r items).1) :
    ∃ i ∈ items, ∃ r', Registry.Shrinks r' r ∧ x = (applyEntry r' i).1 := by
  induction items generalizing r with
  | nil => cases h
  | cons i items ih =>
      rcases List.mem_cons.mp h with rfl | h
      · exact ⟨i, List.mem_cons_self, r, .refl r, rfl⟩
      · obtain ⟨j, hj, r', hr', hx⟩ := @ih (applyEntry r i).2 h
        exact ⟨j, List.mem_cons_of_mem i hj, r', hr'.trans (shrinks_applyEntry r i), hx⟩

theorem entries_keepShown (r : Registry) (items : List Instance) :
    (keepShown r items).2.entries = r.entries := by
  induction items generalizing r with
  | nil => rfl
  | cons i items ih =>
      unfold keepShown
      split
      · split
        · exact ih r
        · exact ih _
      · exact ih r

/-- What a suppressed key hides. -/
def Hidden (r : Registry) (i : Instance) : Prop :=
  i.instanceKey ∈ r.suppressed ∧ fullyStopped i = true

theorem mem_keepShown_of_not_hidden {r : Registry} {items : List Instance} {x : Instance}
    (hx : x ∈ items) (h : ¬ Hidden r x) : x ∈ (keepShown r items).1 := by
  induction items generalizing r with
  | nil => cases hx
  | cons i items ih =>
      -- a key is taken off the suppressed ones, none is added
      have hless : ¬ Hidden (r.unsuppress i.instanceKey) x :=
        fun hh => h ⟨(List.mem_filter.mp hh.1).1, hh.2⟩
      unfold keepShown
      split
      · rename_i hs
        split
        · rename_i hf
          rcases List.mem_cons.mp hx with rfl | hx
          · exact absurd ⟨of_decide_eq_true hs, hf⟩ h
          · exact ih hx h
        · rcases List.mem_cons.mp hx with rfl | hx
          · exact List.mem_cons_self
          · exact List.mem_cons_of_mem i (ih hx hless)
      · rcases List.mem_cons.mp hx with rfl | hx
        · exact List.mem_cons_self
        · exact List.mem_cons_of_mem i (ih hx h)

theorem mem_of_mem_keepShown {r : Registry} {items : List Instance} {x : Instance}
    (h : x ∈ (keepShown r items).1) : x ∈ items := by
  induction items generalizing r with
  | nil => cases h
  | cons i items ih =>
      unfold keepShown at h
      split at h
      · split at h
        · exact List.mem_cons_of_mem i (ih h)
        · rcases List.mem_cons.mp h with rfl | h
          · exact List.mem_cons_self
          · exact List.mem_cons_of_mem i (ih h)
      · rcases List.mem_cons.mp h with rfl | h
        · exact List.mem_cons_self
        · exact List.mem_cons_of_mem i (ih h)

theorem not_hidden_of_mem_keepShown {r : Registry} {items : List Instance}
    (hnd : (items.map Instance.instanceKey).Nodup) {x : Instance}
    (h : x ∈ (keepShown r items).1) : ¬ Hidden r x := by
  induction items generalizing r with
  | nil => cases h
  | cons i items ih =>
      obtain ⟨hi, hnd⟩ := List.nodup_cons.mp hnd
      unfold keepShown at h
      split at h
      · split at h
        · exact ih hnd h
        · rename_i hf
          rcases List.mem_cons.mp h with rfl | h
          · exact fun hh => hf hh.2
          · intro hh
            have hne : x.instanceKey ≠ i.instanceKey :=
              fun he => hi (he ▸ List.mem_map_of_mem (mem_of_mem_keepShown h))
            exact ih hnd h ⟨List.mem_filter.mpr ⟨hh.1, by simp [hne]⟩, hh.2⟩
      · rename_i hs
        rcases List.mem_cons.mp h with rfl | h
        · exact fun hh => hs (decide_eq_true hh.1)
        · exact ih hnd h

theorem mem_ghosts {alive : Nat → Bool} {keys : List Str} {r : Registry} {x : Instance} :
    x ∈ ghosts alive keys r ↔
      ∃ e, r.entries.get e.key = some e ∧ e.key ∉ keys ∧ x = synthesize alive e := by
  unfold ghosts
  rw [List.mem_map]
  constructor
  · intro ⟨⟨k, e⟩, hm, hx⟩
    obtain ⟨hmem, hk⟩ := List.mem_filter.mp hm
    have hread := Dict.mem_entries_iff.mp hmem
    exact ⟨e, (r.keyed k e hread).symm ▸ hread, of_decide_eq_true hk, hx.symm⟩
  · intro ⟨e, hread, hk, hx⟩
    exact ⟨(e.key, e), List.mem_filter.mpr ⟨Dict.mem_entries_iff.mpr hread, decide_eq_true hk⟩,
      hx.symm⟩

theorem nodup_ghosts (alive : Nat → Bool) (keys : List Str) (r : Registry) :
    ((ghosts alive keys r).map Instance.instanceKey).Nodup := by
  unfold ghosts
  rw [List.map_map]
  have hkeys : ∀ x ∈ r.entries.entries, x.2.key = x.1 := fun x hx =>
    r.keyed x.1 x.2 (Dict.mem_entries_iff.mp hx)
  have hnd : (r.entries.entries.map fun x => x.2.key).Nodup := by
    rw [List.map_congr_left hkeys, List.Nodup, List.pairwise_map]
    exact r.entries.sorted.imp fun hlt => ne_of_lt hlt
  have hsub := hnd.sublist ((List.filter_sublist
    (p := fun x : Str × Entry => decide (x.2.key ∉ keys))).map fun x => x.2.key)
  have hcomp : (Instance.instanceKey ∘ fun x : Str × Entry => synthesize alive x.2) =
      fun x => x.2.key := funext fun x => key_synthesize alive x.2
  rwa [hcomp]

/-! ## 5. `List` and `Get` agree -/

/-- Two instances that a client cannot tell apart by key, source and statuses. -/
structure SameShown (a b : Instance) : Prop where
  key : a.instanceKey = b.instanceKey
  source : a.source = b.source
  appStatus : a.appStatus = b.appStatus
  daprdStatus : a.daprdStatus = b.daprdStatus

theorem SameShown.refl (a : Instance) : SameShown a a := ⟨rfl, rfl, rfl, rfl⟩

section Agree

variable {alive : Nat → Bool} {live : List Instance} {r : Registry}

theorem mem_list {i : Instance} : i ∈ list live ↔ i ∈ live := (sortInstances_perm live).mem_iff

theorem mem_keys_list {k : Str} :
    k ∈ (list live).map Instance.instanceKey ↔ k ∈ live.map Instance.instanceKey :=
  ((sortInstances_perm live).map _).mem_iff

/-- An entry of no live instance is the same after the first loop. -/
theorem get_after_apply {k : Str} (h : k ∉ live.map Instance.instanceKey) :
    (applyAll r (list live)).2.entries.get k = r.entries.get k :=
  applyAll_get fun hm => h (mem_keys_list.mp hm)

theorem hidden_after_apply {i : Instance} :
    Hidden (applyAll r (list live)).2 i ↔ Hidden r i := by
  rw [Hidden, Hidden, suppressed_applyAll]

/-- **What a listing shows**: live instances, each against its entry, and stopped ones. -/
theorem mem_overlayList (hnd : (live.map Instance.instanceKey).Nodup) {x : Instance}
    (h : x ∈ (overlayList alive live r).1) :
    (∃ i ∈ live, x = (applyEntry r i).1) ∨
      ∃ e, r.entries.get e.key = some e ∧ e.key ∉ live.map Instance.instanceKey ∧
        ¬ Hidden r (synthesize alive e) ∧ x = synthesize alive e := by
  have hnd' : ((list live).map Instance.instanceKey).Nodup :=
    ((sortInstances_perm live).map _).nodup_iff.mpr hnd
  have hx := (sortInstances_perm _).mem_iff.mp h
  rcases List.mem_append.mp (mem_of_mem_keepShown hx) with hm | hm
  · obtain ⟨i, hi, he⟩ := mem_applyAll hnd' hm
    exact .inl ⟨i, mem_list.mp hi, he⟩
  · obtain ⟨e, hread, hk, he⟩ := mem_ghosts.mp hm
    have hk' : e.key ∉ live.map Instance.instanceKey := fun hm => hk (mem_keys_list.mpr hm)
    rw [get_after_apply hk'] at hread
    -- the keys of what is shown differ, so none is taken off the suppressed ones before its turn
    have hall : (((applyAll r (list live)).1 ++ ghosts alive ((list live).map Instance.instanceKey)
        (applyAll r (list live)).2).map Instance.instanceKey).Nodup := by
      rw [List.map_append, keys_applyAll]
      refine List.nodup_append.mpr ⟨hnd', nodup_ghosts _ _ _, fun k hk k' hk' heq => ?_⟩
      obtain ⟨y, hy, rfl⟩ := List.mem_map.mp hk'
      obtain ⟨e', -, hnot, rfl⟩ := mem_ghosts.mp hy
      rw [key_synthesize] at heq
      exact hnot (heq ▸ hk)
    have hshown := not_hidden_of_mem_keepShown hall hx
    rw [hidden_after_apply, he] at hshown
    exact .inr ⟨e, hread, hk', hshown, he⟩

/-- A stopped instance that is not live and not hidden is shown. -/
theorem ghost_mem_overlayList {e : Entry} (hread : r.entries.get e.key = some e)
    (hk : e.key ∉ live.map Instance.instanceKey) (hh : ¬ Hidden r (synthesize alive e)) :
    synthesize alive e ∈ (overlayList alive live r).1 := by
  refine (sortInstances_perm _).mem_iff.mpr (mem_keepShown_of_not_hidden ?_ ?_)
  · refine List.mem_append_right _ (mem_ghosts.mpr ⟨e, ?_, fun hm => hk (mem_keys_list.mp hm), rfl⟩)
    rwa [get_after_apply hk]
  · rwa [hidden_after_apply]

/-- **`Get` under a listed key gives what the listing shows, exactly if** no live instance has the
    app-id of a stopped one that is listed without being live: the scan's fallback to the app-id
    comes before the registry is asked. -/
theorem get_agrees_iff (alive : Nat → Bool) (live : List Instance)
    (hnd : (live.map Instance.instanceKey).Nodup) (r : Registry) :
    (∀ x ∈ (overlayList alive live r).1,
      ∃ y r', overlayGet alive live r x.instanceKey = some (y, r') ∧ SameShown x y) ↔
    ∀ e, r.entries.get e.key = some e → e.key ∉ live.map Instance.instanceKey →
      ¬ Hidden r (synthesize alive e) → ∀ i ∈ live, i.appID ≠ e.key := by
  constructor
  · intro h e hread hk hh i hi happ
    obtain ⟨y, r', hget, hsame⟩ := h _ (ghost_mem_overlayList hread hk hh)
    rw [key_synthesize] at hget
    have hfound : ∃ j, Discovery.get live e.key = some j := by
      rw [get_of_not_key hk]
      exact Option.isSome_iff_exists.mp (List.find?_isSome.mpr ⟨i, hi, decide_eq_true happ⟩)
    obtain ⟨j, hj⟩ := hfound
    rw [overlayGet, hj] at hget
    -- what comes back has the key of a live instance
    have hy : (applyEntry r j).1 = y := congrArg Prod.fst (Option.some.inj hget)
    have hkey : y.instanceKey = j.instanceKey := by rw [← hy, key_applyEntry]
    have hghost := hsame.key
    rw [key_synthesize, hkey] at hghost
    exact hk (hghost ▸ List.mem_map_of_mem (mem_of_get hj))
  · intro h x hx
    rcases mem_overlayList hnd hx with ⟨i, hi, rfl⟩ | ⟨e, hread, hk, hh, rfl⟩
    · refine ⟨(applyEntry r i).1, (applyEntry r i).2, ?_, SameShown.refl _⟩
      rw [key_applyEntry, overlayGet, get_of_key hnd hi]
    · have hnone : Discovery.get live e.key = none := by
        rw [get_of_not_key hk]
        refine List.find?_eq_none.mpr fun i hi happ => ?_
        exact h e hread hk hh i hi (of_decide_eq_true happ)
      refine ⟨synthesize alive e, r, ?_, SameShown.refl _⟩
      rw [key_synthesize, overlayGet, hnone, r.get_eq, hread]
      rfl

end Agree

theorem key_host_a : inContainer .standalone = false → ("a".toList : Str) = "a".toList := fun _ => rfl

theorem orphan_running : false = true → RunStatus.running = .stopped := fun h => by cases h

/-- A stopped app `a`, recorded with a snapshot of its process. -/
def stoppedA : Entry where
  inst := { appID := "a".toList, instanceKey := "a".toList, source := .standalone, key_host := key_host_a
            pid_container := fun h => (by cases h), orphan_stopped := fun h => (by cases h) }
  procs t := if t = .app then some { pid := 7 } else none
  host := rfl

/-- A compose container `p-a-1` whose sidecar has the app-id `a`. -/
def composeA : Instance where
  appID := "a".toList
  instanceKey := "p-a-1".toList
  source := .compose
  appStatus := .running
  daprdStatus := .running
  key_host h := by cases h
  pid_container _ := rfl
  orphan_stopped := orphan_running

/-- A compose container `p-b-1` of another app, and an app `c` that runs by itself. -/
def composeB : Instance :=
  { composeA with
    appID := "b".toList, instanceKey := "p-b-1".toList, key_host := fun h => by cases h
    pid_container := fun _ => rfl, orphan_stopped := orphan_running }

def runningC : Instance where
  appID := "c".toList
  instanceKey := "c".toList
  source := .standalone
  appStatus := .running
  daprdStatus := .running
  appPID := 8
  key_host _ := rfl
  pid_container h := by cases h
  orphan_stopped := orphan_running

/-- The stopped app is listed beside the two that run, and each is found under its key. -/
theorem get_agrees_iff_three :
    synthesize (fun _ => false) stoppedA ∈
        (overlayList (fun _ => false) [composeB, runningC] (Registry.new.put stoppedA)).1 ∧
      ∀ x ∈ (overlayList (fun _ => false) [composeB, runningC] (Registry.new.put stoppedA)).1,
        ∃ y r', overlayGet (fun _ => false) [composeB, runningC] (Registry.new.put stoppedA)
          x.instanceKey = some (y, r') ∧ SameShown x y := by
  have hread : (Registry.new.put stoppedA).entries.get stoppedA.key = some stoppedA :=
    Dict.get_put_self _ _ _
  refine ⟨ghost_mem_overlayList hread (by decide) (fun hh => by cases hh.1), ?_⟩
  refine (get_agrees_iff (fun _ => false) [composeB, runningC] (by decide)
    (Registry.new.put stoppedA)).mpr fun e he hkey _ i hi happ => ?_
  have hall : ∀ i ∈ [composeB, runningC], i.appID ∈ [composeB, runningC].map Instance.appID :=
    fun i hi => List.mem_map_of_mem hi
  have honly : e.key = "a".toList := by
    by_contra hne
    have hget : (Registry.new.put stoppedA).entries.get e.key = none := Dict.get_put_of_ne _ _ hne
    rw [hget] at he
    cases he
  have := hall i hi
  rw [happ, honly] at this
  exact absurd this (by decide)

/-- **A stopped app and a compose app with its app-id**: the listing shows both; `Get` under the
    key of the stopped one gives the compose app. -/
theorem ghost_shadowed :
    ([composeA].map Instance.instanceKey).Nodup ∧
      synthesize (fun _ => false) stoppedA ∈
        (overlayList (fun _ => false) [composeA] (Registry.new.put stoppedA)).1 ∧
      ∃ y r', overlayGet (fun _ => false) [composeA] (Registry.new.put stoppedA) stoppedA.key =
        some (y, r') ∧ ¬ SameShown (synthesize (fun _ => false) stoppedA) y := by
  have hread : (Registry.new.put stoppedA).entries.get stoppedA.key = some stoppedA :=
    Dict.get_put_self _ _ _
  refine ⟨by simp, ghost_mem_overlayList hread (by decide) (fun hh => by cases hh.1), composeA,
    Registry.new.put stoppedA, ?_, fun h => absurd h.key (by decide)⟩
  have hnone : (Registry.new.put stoppedA).entries.get composeA.instanceKey = none := by decide
  have hget : Discovery.get [composeA] stoppedA.key = some composeA := rfl
  rw [overlayGet, hget]
  simp only
  rw [applyEntry, Registry.get_eq, hnone]

end DevDashboard.Lifecycle
