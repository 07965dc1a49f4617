/-
  File:      DevDashboard/Cmd/RegistryRun.lean
  Subject:   THE REGISTRY OVER WHOLE RUNS: any calls in any order, and reloads of its file.

  Saves succeed here; `Cmd/Registry.lean` has the calls whose save fails. An entry's key is its
  path if it is an auto entry, its name if it is a manual one.

  * `Rewrites` -- everything a call can do to the entries (`apply_cases`);
  * `WellKeyed` -- the invariant of the list, kept by each of these (`Rewrites.wellKeyed`);
  * `Kept` -- what a step leaves of the entries there were;
  * `registry_run` -- invariant and steps, in every run.
-/
import DevDashboard.Cmd.Registry

namespace DevDashboard.Cmd

open Lib StateStore Workflow ConnRegistry

/-! ## 1. What a call can do -/

section Rewrites

variable {B : Type} (hash : Str → Str) (yaml : Yaml B)

/-- **What a call can do to the entries**, when it does not leave them as they are. -/
inductive Rewrites (now : Time) : RegOp → List ConnEntry → List ConnEntry → Prop where
  | refresh {e cur : ConnEntry} {pre post : List ConnEntry}
      (hcur : isAt .auto (normPath e.path) cur = true) :
      Rewrites now (.upsertAuto e) (pre ++ cur :: post)
        (pre ++ refreshed now cur (autoEntry hash e) :: post)
  | insert {e : ConnEntry} {l : List ConnEntry}
      (hnew : ∀ x ∈ l, isAt .auto (normPath e.path) x = false) :
      Rewrites now (.upsertAuto e) l (l ++ [{ autoEntry hash e with updatedAt := now }])
  | add {e : ConnEntry} {l : List ConnEntry} (hnew : ∀ x ∈ l, isNamed e.name x = false) :
      Rewrites now (.add e) l (l ++ [manualEntry hash now e])
  | update {e old : ConnEntry} {pre post : List ConnEntry} (hold : isManualId e.id old = true)
      (hnew : ∀ x ∈ pre ++ post, isNamed e.name x = false) :
      Rewrites now (.update e) (pre ++ old :: post) (pre ++ manualEntry hash now e :: post)
  | delete {id : Str} {l : List ConnEntry} :
      Rewrites now (.delete id) l (l.filterMap (deleted id))
  | undismiss {path : Str} {e : ConnEntry} {pre post : List ConnEntry}
      (he : isTombstone (normPath path) e = true) :
      Rewrites now (.undismiss path) (pre ++ e :: post)
        (pre ++ { e with dismissed := false, updatedAt := now } :: post)

/-- The outside of a call whose save succeeds. -/
def calm (now : Time) : SaveEnv := ⟨now, fun _ => false⟩

theorem save_calm (now : Time) (r : ConnRegistry B) :
    (save yaml (calm now) r).2 = ⟨r.entries, some (yaml.marshal r.entries)⟩ := by
  rw [save_of_succeeds fun _ => rfl]

variable {hash yaml}

theorem any_eq_false_iff {p : ConnEntry → Bool} {l : List ConnEntry} :
    ¬ l.any p = true ↔ ∀ x ∈ l, p x = false := by
  simp

/-- A call leaves the registry as it is, or rewrites its entries and saves them. -/
theorem apply_cases (op : RegOp) (now : Time) (r : ConnRegistry B) :
    (r.apply hash yaml op (calm now)).2 = r ∨
      ∃ es, Rewrites hash now op r.entries es ∧
        (r.apply hash yaml op (calm now)).2 = ⟨es, some (yaml.marshal es)⟩ := by
  cases op with
  | upsertAuto e =>
      rw [apply_upsertAuto]
      split
      · exact .inl rfl
      · split
        · rename_i pre cur post hs
          obtain ⟨hl, hcur, -⟩ := splitFirst_eq_some hs
          split
          · exact .inl rfl
          · refine .inr ⟨_, ?_, save_calm yaml now _⟩
            rw [hl]
            exact .refresh hcur
        · rename_i hs
          exact .inr ⟨_, .insert (splitFirst_eq_none.mp hs), save_calm yaml now _⟩
  | add e =>
      rw [apply_add]
      split
      · exact .inl rfl
      · rename_i hn
        exact .inr ⟨_, .add (any_eq_false_iff.mp hn), save_calm yaml now _⟩
  | update e =>
      rw [apply_update]
      split
      · exact .inl rfl
      · rename_i pre old post hs
        obtain ⟨hl, hold, -⟩ := splitFirst_eq_some hs
        split
        · exact .inl rfl
        · rename_i hn
          refine .inr ⟨_, ?_, save_calm yaml now _⟩
          rw [hl]
          exact .update hold (any_eq_false_iff.mp hn)
  | delete id =>
      rw [apply_delete]
      split
      · exact .inr ⟨_, .delete, save_calm yaml now _⟩
      · rename_i hn
        have hsame : r.entries.filterMap (deleted id) = r.entries :=
          filterMap_deleted_eq.mpr fun e he hid =>
            absurd (List.any_eq_true.mpr ⟨e, he, by simpa using hid⟩) hn
        rw [hsame]
        exact .inl rfl
  | undismiss path =>
      rw [apply_undismiss]
      split
      · exact .inl rfl
      · rename_i pre e post hs
        obtain ⟨hl, he, -⟩ := splitFirst_eq_some hs
        refine .inr ⟨_, ?_, save_calm yaml now _⟩
        rw [hl]
        exact .undismiss he

end Rewrites

/-! ## 2. Keys -/

/-- What can be the key of an entry: any name, an absolute path. -/
def IsKey : EntrySource → Str → Prop
  | .auto, key => Path.isAbs key = true
  | .manual, _ => True
  | .other _, _ => False

/-- Different keys have different ids. -/
def EntryIDInjective (hash : Str → Str) : Prop :=
  ∀ s k s' k', IsKey s k → IsKey s' k' → entryID hash s k = entryID hash s' k' → s = s' ∧ k = k'

/-- Source and key. -/
def ConnEntry.keyed (e : ConnEntry) : EntrySource × Str := (e.source, e.key)

/-- The invariant of the entries. -/
structure WellKeyed (hash : Str → Str) (l : List ConnEntry) : Prop where
  valid : ∀ e ∈ l, IsKey e.source e.key
  id_eq : ∀ e ∈ l, e.id = entryID hash e.source e.key
  keys : (l.map ConnEntry.keyed).Nodup

section Keys

variable {hash : Str → Str} {now : Time} {op : RegOp} {l l' : List ConnEntry}

theorem keyed_refreshed {e cur : ConnEntry} (h : isAt .auto (normPath e.path) cur = true) :
    (refreshed now cur (autoEntry hash e)).keyed = cur.keyed := by
  simp only [isAt, Bool.and_eq_true, decide_eq_true_eq] at h
  have hs : (refreshed now cur (autoEntry hash e)).source = .auto := h.1
  have hk : normPath (refreshed now cur (autoEntry hash e)).path = normPath cur.path := h.2.symm
  simp [ConnEntry.keyed, ConnEntry.key, hs, h.1, hk]

/-- One entry replaced by one of the same key. -/
theorem WellKeyed.replace {pre post : List ConnEntry} {x y : ConnEntry}
    (h : WellKeyed hash (pre ++ x :: post)) (hk : y.keyed = x.keyed)
    (hid : y.id = entryID hash y.source y.key) : WellKeyed hash (pre ++ y :: post) := by
  have hx : x ∈ pre ++ x :: post := by simp
  obtain ⟨hsrc, hkey⟩ := Prod.mk.inj hk
  refine ⟨fun e he => ?_, fun e he => ?_, ?_⟩
  · rcases List.mem_append.mp he with he | he
    · exact h.valid e (by simp [he])
    · rcases List.mem_cons.mp he with rfl | he
      · rw [hsrc, hkey]
        exact h.valid x hx
      · exact h.valid e (by simp [he])
  · rcases List.mem_append.mp he with he | he
    · exact h.id_eq e (by simp [he])
    · rcases List.mem_cons.mp he with rfl | he
      · exact hid
      · exact h.id_eq e (by simp [he])
  · have hkeys := h.keys
    rw [List.map_append, List.map_cons] at hkeys ⊢
    rw [hk]
    exact hkeys

/-- A new entry of a new key, in whatever place. -/
theorem WellKeyed.insert {pre post : List ConnEntry} {y : ConnEntry}
    (h : WellKeyed hash (pre ++ post)) (hv : IsKey y.source y.key)
    (hid : y.id = entryID hash y.source y.key) (hnew : ∀ x ∈ pre ++ post, x.keyed ≠ y.keyed) :
    WellKeyed hash (pre ++ y :: post) := by
  have hmem : ∀ e ∈ pre ++ y :: post, e = y ∨ e ∈ pre ++ post := by
    intro e he
    simp only [List.mem_append, List.mem_cons] at he ⊢
    tauto
  refine ⟨fun e he => ?_, fun e he => ?_, ?_⟩
  · rcases hmem e he with rfl | he
    · exact hv
    · exact h.valid e he
  · rcases hmem e he with rfl | he
    · exact hid
    · exact h.id_eq e he
  · rw [(List.perm_middle.map _).nodup_iff, List.map_cons, List.nodup_cons]
    refine ⟨fun hm => ?_, h.keys⟩
    obtain ⟨x, hx, he⟩ := List.mem_map.mp hm
    exact hnew x hx he

theorem WellKeyed.of_sublist (h : WellKeyed hash l) (hs : List.Sublist l' l) : WellKeyed hash l' :=
  ⟨fun e he => h.valid e (hs.subset he), fun e he => h.id_eq e (hs.subset he),
    h.keys.sublist (hs.map _)⟩

/-- What a deletion leaves of an entry has its key and id. -/
theorem keyed_deleted {id : Str} {e e' : ConnEntry} (h : deleted id e = some e') :
    e'.keyed = e.keyed ∧ e'.id = e.id := by
  unfold deleted at h
  split at h
  · split at h
    · cases h
    · cases h
      exact ⟨rfl, rfl⟩
  · cases h
    exact ⟨rfl, rfl⟩

theorem WellKeyed.filterMap_deleted (h : WellKeyed hash l) (id : Str) :
    WellKeyed hash (l.filterMap (deleted id)) := by
  induction l with
  | nil => exact h
  | cons e l ih =>
      have ih := ih (h.of_sublist (List.sublist_cons_self e l))
      cases hd : deleted id e with
      | none => rwa [List.filterMap_cons_none hd]
      | some e' =>
          obtain ⟨hk, hid⟩ := keyed_deleted hd
          obtain ⟨hsrc, hkey⟩ := Prod.mk.inj hk
          rw [List.filterMap_cons_some hd]
          refine @WellKeyed.insert _ [] _ e' ih ?_ ?_ ?_
          · rw [hsrc, hkey]
            exact h.valid e List.mem_cons_self
          · rw [hid, hsrc, hkey]
            exact h.id_eq e List.mem_cons_self
          · intro x hx heq
            obtain ⟨y, hy, hyx⟩ := List.mem_filterMap.mp hx
            refine (List.nodup_cons.mp h.keys).1 (List.mem_map.mpr ⟨y, hy, ?_⟩)
            rw [← (keyed_deleted hyx).1, heq, hk]

/-- An entry at the path of an upsert has its key. -/
theorem isAt_of_keyed (path : Str) {x : ConnEntry} (h : x.keyed = (.auto, normPath path)) :
    isAt .auto (normPath path) x = true := by
  obtain ⟨hsrc, hkey⟩ := Prod.mk.inj h
  have hp : normPath x.path = normPath path := by simpa [ConnEntry.key, hsrc] using hkey
  simp [isAt, hsrc, hp]

theorem isNamed_of_keyed (name : Str) {x : ConnEntry} (h : x.keyed = (.manual, name)) :
    isNamed name x = true := by
  obtain ⟨hsrc, hkey⟩ := Prod.mk.inj h
  have hn : x.name = name := by simpa [ConnEntry.key, hsrc] using hkey
  simp [isNamed, hsrc, hn]

/-- A new manual entry. -/
theorem WellKeyed.insertManual {pre post : List ConnEntry} (h : WellKeyed hash (pre ++ post))
    {e : ConnEntry} (hnew : ∀ x ∈ pre ++ post, isNamed e.name x = false) :
    WellKeyed hash (pre ++ manualEntry hash now e :: post) := by
  refine h.insert trivial rfl fun x hx heq => ?_
  have hn := isNamed_of_keyed e.name heq
  rw [hnew x hx] at hn
  cases hn

/-- The upserts of a step are of absolute paths. -/
def RegOp.AbsPath : RegOp → Prop
  | .upsertAuto e => Path.isAbs e.path = true
  | _ => True

/-- **The invariant is kept.** -/
theorem Rewrites.wellKeyed (hr : Rewrites hash now op l l') (habs : op.AbsPath)
    (h : WellKeyed hash l) : WellKeyed hash l' := by
  cases hr with
  | refresh hcur =>
      refine h.replace (keyed_refreshed hcur) ?_
      simp only [isAt, Bool.and_eq_true, decide_eq_true_eq] at hcur
      simp [refreshed, autoEntry, ConnEntry.key, hcur.1]
  | @insert e _ hnew =>
      rw [← List.append_nil l] at h hnew
      refine h.insert (Path.isAbs_clean habs) rfl fun x hx heq => ?_
      have hat := isAt_of_keyed e.path heq
      rw [hnew x hx] at hat
      cases hat
  | add hnew =>
      rw [← List.append_nil l] at h hnew
      exact h.insertManual hnew
  | @update e old pre post hold hnew =>
      refine WellKeyed.insertManual (h.of_sublist ?_) hnew
      exact (List.Sublist.refl pre).append (List.sublist_cons_self old post)
  | delete => exact h.filterMap_deleted _
  | @undismiss path e pre post he => exact h.replace rfl (h.id_eq e (by simp))

/-! ## 3. What a step leaves of the entries there were -/

/-- A manual entry goes or changes only by `Delete` or `Update` of its id. An auto entry stays,
    and its tombstone goes only by `Undismiss` of its path. -/
structure Kept (op : Option RegOp) (l l' : List ConnEntry) : Prop where
  manual : ∀ e ∈ l, e.source = .manual →
    e ∈ l' ∨ op = some (.delete e.id) ∨ ∃ e', op = some (.update e') ∧ e'.id = e.id
  auto : ∀ e ∈ l, e.source = .auto →
    ∃ e' ∈ l', e'.source = .auto ∧ normPath e'.path = normPath e.path ∧
      (e.dismissed = true → e'.dismissed = false →
        ∃ path, op = some (.undismiss path) ∧ normPath path = normPath e.path)

theorem Kept.refl (op : Option RegOp) (l : List ConnEntry) : Kept op l l := by
  refine ⟨fun e he _ => .inl he, fun e he hs => ⟨e, he, hs, rfl, fun h1 h2 => ?_⟩⟩
  rw [h1] at h2
  cases h2

/-- Steps that add entries at most. -/
theorem Kept.of_subset {op : Option RegOp} (h : ∀ e ∈ l, e ∈ l') : Kept op l l' := by
  refine ⟨fun e he _ => .inl (h e he), fun e he hs => ⟨e, h e he, hs, rfl, fun h1 h2 => ?_⟩⟩
  rw [h1] at h2
  cases h2

/-- Steps that replace one entry. -/
theorem Kept.replace {op : Option RegOp} {pre post : List ConnEntry} {x y : ConnEntry}
    (hman : x.source = .manual →
      op = some (.delete x.id) ∨ ∃ e', op = some (.update e') ∧ e'.id = x.id)
    (hauto : x.source = .auto → y.source = .auto ∧ normPath y.path = normPath x.path ∧
      (x.dismissed = true → y.dismissed = false →
        ∃ path, op = some (.undismiss path) ∧ normPath path = normPath x.path)) :
    Kept op (pre ++ x :: post) (pre ++ y :: post) := by
  have hmem : ∀ e ∈ pre ++ x :: post, e = x ∨ e ∈ pre ++ y :: post := by
    intro e he
    simp only [List.mem_append, List.mem_cons] at he ⊢
    tauto
  refine ⟨fun e he hs => ?_, fun e he hs => ?_⟩
  · rcases hmem e he with rfl | he
    · exact .inr (hman hs)
    · exact .inl he
  · rcases hmem e he with rfl | he
    · obtain ⟨h1, h2, h3⟩ := hauto hs
      exact ⟨y, by simp, h1, h2, h3⟩
    · exact ⟨e, he, hs, rfl, fun h1 h2 => by rw [h1] at h2; cases h2⟩

/-- **What a call leaves of the entries there were.** -/
theorem Rewrites.kept (hr : Rewrites hash now op l l') : Kept (some op) l l' := by
  cases hr with
  | @refresh e cur pre post hcur =>
      simp only [isAt, Bool.and_eq_true, decide_eq_true_eq] at hcur
      refine Kept.replace (fun hm => ?_) fun hs => ⟨hcur.1, hcur.2.symm, fun h1 h2 => ?_⟩
      · rw [hcur.1] at hm
        cases hm
      · -- the tombstone is not touched
        have hd : (refreshed now cur (autoEntry hash e)).dismissed = cur.dismissed := rfl
        rw [hd, h1] at h2
        cases h2
  | insert hnew => exact Kept.of_subset fun e he => List.mem_append_left _ he
  | add hnew => exact Kept.of_subset fun e he => List.mem_append_left _ he
  | @update e old pre post hold hnew =>
      simp only [isManualId, Bool.and_eq_true, decide_eq_true_eq] at hold
      refine Kept.replace (fun _ => .inr ⟨e, rfl, hold.2.symm⟩) fun hs => ?_
      rw [hold.1] at hs
      cases hs
  | @delete id =>
      refine ⟨fun e he hs => ?_, fun e he hs => ?_⟩
      · by_cases hid : e.id = id
        · exact .inr (.inl (by rw [hid]))
        · exact .inl (List.mem_filterMap.mpr ⟨e, he, by simp [deleted, hid]⟩)
      · by_cases hid : e.id = id
        · refine ⟨{ e with dismissed := true }, ?_, hs, rfl, fun _ h => by cases h⟩
          exact List.mem_filterMap.mpr ⟨e, he, by simp [deleted, hid, hs]⟩
        · refine ⟨e, List.mem_filterMap.mpr ⟨e, he, by simp [deleted, hid]⟩, hs, rfl, ?_⟩
          intro h1 h2
          rw [h1] at h2
          cases h2
  | @undismiss path e pre post he =>
      simp only [isTombstone, Bool.and_eq_true, decide_eq_true_eq] at he
      refine Kept.replace (fun hm => absurd hm he.1.1) fun hs => ⟨hs, rfl, fun _ _ => ?_⟩
      exact ⟨path, rfl, he.2.symm⟩

end Keys

/-! ## 4. Runs -/

/-- A step of a run: a call at some time, or a new `LoadRegistry`. -/
inductive RegStep where
  | call (op : RegOp) (now : Time)
  | reload

def RegStep.op : RegStep → Option RegOp
  | .call op _ => some op
  | .reload => none

section Run

variable {B : Type} (hash : Str → Str) (yaml : Yaml B)

/-- What a step leads to, its save successful. -/
def regNext (r : ConnRegistry B) : RegStep → ConnRegistry B
  | .call op now => (r.apply hash yaml op (calm now)).2
  | .reload => { r with entries := loadEntries hash yaml r.file }

/-- One step. -/
def regStep (r : ConnRegistry B) (a : RegStep) (r' : ConnRegistry B) : Prop :=
  r' = regNext hash yaml r a

/-- A registry before its first call. -/
def newRegistry : ConnRegistry B := ⟨[], none⟩

/-- The invariant of a registry: keys and ids are unique, an id is that of its key, and the file
    decodes to the entries. -/
structure RegInv (r : ConnRegistry B) : Prop where
  ids : (r.entries.map ConnEntry.id).Nodup
  names : ((r.entries.filter fun e => decide (e.source = .manual)).map ConnEntry.name).Nodup
  paths : ((r.entries.filter fun e => decide (e.source = .auto)).map
    fun e => normPath e.path).Nodup
  id_eq : ∀ e ∈ r.entries, e.source = .manual ∧ e.id = entryID hash .manual e.name ∨
    e.source = .auto ∧ e.id = entryID hash .auto (normPath e.path)
  file : loadEntries hash yaml r.file = r.entries

variable {hash yaml} {r : ConnRegistry B}

/-- Entries whose keys are injective in `f` have distinct values of `f`. -/
theorem WellKeyed.nodup_map {l : List ConnEntry} (h : WellKeyed hash l) {p : ConnEntry → Bool}
    {f : ConnEntry → Str}
    (hf : ∀ e ∈ l, ∀ e' ∈ l, p e = true → p e' = true → f e = f e' → e.keyed = e'.keyed) :
    ((l.filter p).map f).Nodup := by
  have hk := h.keys
  rw [List.nodup_iff_pairwise_ne, List.pairwise_map] at hk ⊢
  have hsub := hk.sublist (List.filter_sublist (p := p))
  refine hsub.imp_of_mem ?_
  intro a b ha hb hne heq
  obtain ⟨ha, hpa⟩ := List.mem_filter.mp ha
  obtain ⟨hb, hpb⟩ := List.mem_filter.mp hb
  exact hne (hf a ha b hb hpa hpb heq)

theorem regInv_of_wellKeyed (hinj : EntryIDInjective hash) (h : WellKeyed hash r.entries)
    (hfile : loadEntries hash yaml r.file = r.entries) : RegInv hash yaml r := by
  refine ⟨?_, ?_, ?_, fun e he => ?_, hfile⟩
  · have hnd := h.nodup_map (p := fun _ => true) (f := ConnEntry.id) ?_
    · simpa using hnd
    · intro e he e' he' _ _ heq
      rw [h.id_eq e he, h.id_eq e' he'] at heq
      obtain ⟨hs, hk⟩ := hinj _ _ _ _ (h.valid e he) (h.valid e' he') heq
      exact Prod.ext hs hk
  · refine h.nodup_map fun e _ e' _ hp hp' heq => ?_
    rw [decide_eq_true_eq] at hp hp'
    simp [ConnEntry.keyed, ConnEntry.key, hp, hp', heq]
  · refine h.nodup_map fun e _ e' _ hp hp' heq => ?_
    rw [decide_eq_true_eq] at hp hp'
    simp [ConnEntry.keyed, ConnEntry.key, hp, hp', heq]
  · have hv := h.valid e he
    have hid := h.id_eq e he
    unfold ConnEntry.key at hv hid
    cases hs : e.source with
    | auto => exact .inr ⟨rfl, by simpa [hs] using hid⟩
    | manual => exact .inl ⟨rfl, by simpa [hs] using hid⟩
    | other raw =>
        rw [hs] at hv
        exact hv.elim

/-- Entries with their ids are not filled in. -/
theorem backfill_of_wellKeyed {l : List ConnEntry} (h : WellKeyed hash l) :
    l.map (backfill hash) = l := by
  refine (List.map_congr_left fun e he => ?_).trans (List.map_id l)
  have hid := h.id_eq e he
  have hv := h.valid e he
  unfold backfill
  by_cases hnil : e.id = []
  · rw [if_pos hnil]
    unfold ConnEntry.key at hid hv
    cases hs : e.source with
    | auto =>
        simp only [hs, reduceCtorEq, if_false] at hid ⊢
        rw [← hid]
        cases e
        simp_all
    | manual =>
        simp only [hs, if_true] at hid ⊢
        rw [← hid]
        cases e
        simp_all
    | other raw =>
        rw [hs] at hv
        exact hv.elim
  · rw [if_neg hnil]
    rfl

theorem loadEntries_marshal (hyaml : ∀ es, yaml.unmarshal (yaml.marshal es) = some es)
    {l : List ConnEntry} (h : WellKeyed hash l) :
    loadEntries hash yaml (some (yaml.marshal l)) = l := by
  simp only [loadEntries, hyaml, backfill_of_wellKeyed h]

/-- What runs keep. -/
structure RunInv (hash : Str → Str) (yaml : Yaml B) (r : ConnRegistry B) : Prop where
  keyed : WellKeyed hash r.entries
  file : loadEntries hash yaml r.file = r.entries

/-- **One step** keeps the invariant and the entries there were. -/
theorem RunInv.step (hyaml : ∀ es, yaml.unmarshal (yaml.marshal es) = some es)
    {a : RegStep} {r' : ConnRegistry B} (h : RunInv hash yaml r)
    (habs : ∀ op, a.op = some op → op.AbsPath) (hs : regStep hash yaml r a r') :
    RunInv hash yaml r' ∧ Kept a.op r.entries r'.entries := by
  cases a with
  | call op now =>
      have he : r' = (r.apply hash yaml op (calm now)).2 := hs
      rcases @apply_cases B hash yaml op now r with hsame | ⟨es, hrw, hnew⟩
      · rw [he, hsame]
        exact ⟨h, Kept.refl _ _⟩
      · rw [he, hnew]
        have hwk := hrw.wellKeyed (habs op rfl) h.keyed
        exact ⟨⟨hwk, loadEntries_marshal hyaml hwk⟩, hrw.kept⟩
  | reload =>
      have he : r' = { r with entries := loadEntries hash yaml r.file } := hs
      rw [he, h.file]
      exact ⟨h, Kept.refl _ _⟩

theorem runInv_newRegistry : RunInv hash yaml (newRegistry : ConnRegistry B) :=
  ⟨⟨by simp [newRegistry], by simp [newRegistry], List.nodup_nil⟩, rfl⟩

/-- **The registry over whole runs**: in every state of a run that begins empty the invariant
    holds, and every step keeps the entries there were, but for what `Kept` lets go. -/
theorem registry_run (hinj : EntryIDInjective hash)
    (hyaml : ∀ es, yaml.unmarshal (yaml.marshal es) = some es)
    {l : List (ConnRegistry B × RegStep)} (h : Trace (regStep hash yaml) newRegistry l r)
    (habs : ∀ p ∈ l, ∀ op, p.2.op = some op → op.AbsPath) :
    RegInv hash yaml r ∧
      ∀ p ∈ l, ∀ r', regStep hash yaml p.1 p.2 r' → Kept p.2.op p.1.entries r'.entries := by
  have hstep : ∀ (r : ConnRegistry B) a r', RunInv hash yaml r →
      (∀ op, a.op = some op → op.AbsPath) → regStep hash yaml r a r' → RunInv hash yaml r' :=
    fun r a r' hI ha hs => (hI.step hyaml ha hs).1
  have hI := Trace.inv_of runInv_newRegistry hstep h habs
  refine ⟨regInv_of_wellKeyed hinj hI.keyed hI.file, ?_⟩
  exact Trace.steps_of (Q := fun r a => ∀ r', regStep hash yaml r a r' →
    Kept a.op r.entries r'.entries) runInv_newRegistry hstep
    (fun r a r' hI ha _ r'' hs => (hI.step hyaml ha hs).2) h habs

end Run

/-! ## 5. A run of three steps -/

def manualPg : Str := manualMark ++ "pg".toList

def sYaml : Str := "/a/s.yaml".toList

/-- The digests of the two keys of `threeSteps`. -/
def digest (s : Str) : Str :=
  if s = manualPg then "8d4cc5574773".toList
  else if s = sYaml then "41d590523e98".toList
  else s

/-- What is hashed begins with `m` or with `/`, and no digest does. -/
theorem digest_injOn {s t : Str} (hs : s.head? = some 'm' ∨ s.head? = some '/')
    (ht : t.head? = some 'm' ∨ t.head? = some '/') (h : digest s = digest t) : s = t := by
  unfold digest at h
  by_cases s1 : s = manualPg <;> by_cases t1 : t = manualPg
  · rw [s1, t1]
  · by_cases t2 : t = sYaml
    · simp [s1, t2, show sYaml ≠ manualPg by decide] at h
    · simp only [s1, t1, t2, if_true, if_false] at h
      simp [← h] at ht
  · by_cases s2 : s = sYaml
    · simp [t1, s2, show sYaml ≠ manualPg by decide] at h
    · simp only [s1, t1, s2, if_true, if_false] at h
      simp [h] at hs
  · by_cases s2 : s = sYaml <;> by_cases t2 : t = sYaml
    · rw [s2, t2]
    · simp only [t1, s2, t2, if_true, if_false] at h
      simp [← h, show sYaml ≠ manualPg by decide] at ht
    · simp only [s1, s2, t2, if_true, if_false] at h
      simp [h, show sYaml ≠ manualPg by decide] at hs
    · simpa [s1, t1, s2, t2] using h

theorem entryIDInjective_digest : EntryIDInjective digest := by
  have hauto : ∀ {k : Str}, IsKey .auto k → k.head? = some '/' := by
    intro k hk
    obtain ⟨t, ht⟩ := Str.hasPrefix_iff.mp hk
    rw [← ht]
    rfl
  have hman : ∀ k : Str, (manualMark ++ k).head? = some 'm' := fun _ => rfl
  intro s k s' k' hk hk' h
  cases s <;> cases s' <;> simp only [entryID, reduceCtorEq, if_true, if_false] at h
  case auto.auto => exact ⟨rfl, digest_injOn (.inr (hauto hk)) (.inr (hauto hk')) h⟩
  case auto.manual =>
    have he := digest_injOn (.inr (hauto hk)) (.inl (hman k')) h
    have hh := hauto hk
    rw [he, hman] at hh
    cases hh
  case manual.auto =>
    have he := digest_injOn (.inl (hman k)) (.inr (hauto hk')) h
    have hh := hauto hk'
    rw [← he, hman] at hh
    cases hh
  case manual.manual =>
    exact ⟨rfl, List.append_cancel_left (digest_injOn (.inl (hman k)) (.inl (hman k')) h)⟩
  all_goals first | exact hk.elim | exact hk'.elim

/-- A manual connection, a detected one, and its dismissal. -/
def threeSteps : List RegStep :=
  [.call (.add redisEntry) 1, .call (.upsertAuto { name := "s".toList, type := .redis, path := sYaml }) 2,
    .call (.delete (entryID digest .auto sYaml)) 3]

/-- The documents of this library are the lists themselves. -/
def plainYaml : Yaml (List ConnEntry) := ⟨id, some⟩

theorem registry_run_threeSteps :
    (threeSteps.foldl (regNext digest plainYaml) newRegistry).entries.length = 2 ∧
      RegInv digest plainYaml (threeSteps.foldl (regNext digest plainYaml) newRegistry) := by
  refine ⟨by decide, ?_⟩
  obtain ⟨l, htrace, hl⟩ := Trace.of_foldl (regNext digest plainYaml) newRegistry threeSteps
  refine (registry_run entryIDInjective_digest (fun _ => rfl) htrace fun p hp op hop => ?_).1
  have hm : p.2 ∈ threeSteps := hl ▸ List.mem_map_of_mem hp
  simp only [threeSteps, List.mem_cons, List.not_mem_nil, or_false] at hm
  rcases hm with hm | hm | hm <;> rw [hm] at hop <;> cases hop
  · trivial
  · show Path.isAbs sYaml = true
    decide
  · trivial

end DevDashboard.Cmd
