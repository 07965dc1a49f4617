/-
  File:      DevDashboard/Cmd/Registry.lean
  Subject:   THE CONNECTION REGISTRY (`cmd/registry.go`): its entries in memory, its file, and the
             five functions that change both.

  Every function that changes something edits the entries and then calls `save`, whose steps may
  fail (`SaveEnv.fails`). The calls run under one mutex, so each is one step here. `hash` stands for
  the first twelve hex digits of SHA-256, `yaml` for the YAML library, whose documents are of
  type `B`.

  * `ConnRegistry.apply` -- one call;
  * `ConnRegistry.Edits` -- whether a call writes something new, said of the state before it
    (`apply_of_edits`, `apply_of_not_edits`);
  * `unchanged_on_error_iff` -- when a failed call leaves memory and file alone.
-/
import DevDashboard.Lib.Machine
import DevDashboard.Lib.Path
import DevDashboard.StateStore.ConnInfo
import DevDashboard.Workflow.Types

namespace DevDashboard.Cmd

open Lib StateStore Workflow

/-! ## 1. The first element with a property -/

/-- The first element that passes the test, with what stands before it and behind it. -/
def splitFirst {α : Type} (p : α → Bool) : List α → Option (List α × α × List α)
  | [] => none
  | x :: xs =>
      if p x then some ([], x, xs)
      else (splitFirst p xs).map fun (pre, y, post) => (x :: pre, y, post)

theorem splitFirst_eq_none {α : Type} {p : α → Bool} {l : List α} :
    splitFirst p l = none ↔ ∀ x ∈ l, p x = false := by
  induction l with
  | nil => simp [splitFirst]
  | cons x xs ih =>
      unfold splitFirst
      by_cases h : p x = true
      · simp [h]
      · simp [h, ih]

theorem splitFirst_eq_some {α : Type} {p : α → Bool} {l pre post : List α} {x : α}
    (h : splitFirst p l = some (pre, x, post)) :
    l = pre ++ x :: post ∧ p x = true ∧ ∀ y ∈ pre, p y = false := by
  induction l generalizing pre with
  | nil => cases h
  | cons y ys ih =>
      unfold splitFirst at h
      by_cases hy : p y = true
      · rw [if_pos hy] at h
        cases h
        exact ⟨rfl, hy, by simp⟩
      · rw [if_neg hy] at h
        obtain ⟨⟨pre', x', post'⟩, hs, he⟩ := Option.map_eq_some_iff.mp h
        cases he
        obtain ⟨hl, hx, hpre⟩ := ih hs
        refine ⟨by rw [hl]; rfl, hx, ?_⟩
        exact List.forall_mem_cons.mpr ⟨by simpa using hy, hpre⟩

/-! ## 2. Entries -/

/-- `ConnEntry.Source`. The program writes the first two; a file may hold anything. -/
inductive EntrySource where
  | auto
  | manual
  | other (raw : Str)
  deriving DecidableEq

/-- `map[string]string`. -/
structure Metadata where
  entries : List (MetaKey × Str)
  nodup : (entries.map Prod.fst).Nodup
  deriving DecidableEq

def Metadata.empty : Metadata := ⟨[], List.nodup_nil⟩

/-- The value of a property; one that is missing reads as empty. -/
def Metadata.get (m : Metadata) (k : MetaKey) : Str := (m.entries.lookup k).getD []

/-- `maps.Equal`. -/
def Metadata.equal (a b : Metadata) : Bool :=
  decide (a.entries.length = b.entries.length) &&
    a.entries.all fun kv => decide (b.entries.lookup kv.1 = some kv.2)

theorem lookup_of_mem {l : List (MetaKey × Str)} (h : (l.map Prod.fst).Nodup)
    {kv : MetaKey × Str} (hm : kv ∈ l) : l.lookup kv.1 = some kv.2 := by
  induction l with
  | nil => cases hm
  | cons x l ih =>
      obtain ⟨hx, hl⟩ := List.nodup_cons.mp h
      rcases List.mem_cons.mp hm with rfl | hm
      · exact List.lookup_cons_self
      · have hne : kv.1 ≠ x.1 := fun he => hx (he ▸ List.mem_map_of_mem hm)
        rw [List.lookup_cons, beq_false_of_ne hne]
        exact ih hl hm

theorem Metadata.equal_refl (m : Metadata) : m.equal m = true := by
  unfold Metadata.equal
  rw [Bool.and_eq_true, List.all_eq_true]
  exact ⟨by simp, fun kv hm => by simp [lookup_of_mem m.nodup hm]⟩

/-- `ConnEntry`. -/
structure ConnEntry where
  id : Str := []
  name : Str
  type : StoreType
  source : EntrySource := .auto
  path : Str := []
  metadata : Metadata := Metadata.empty
  updatedAt : Time := zeroTime
  dismissed : Bool := false
  deriving DecidableEq

/-- `normPath`, on a system whose file names have case. -/
def normPath (p : Str) : Str := Path.clean p

/-- `"manual:"`. -/
def manualMark : Str := "manual:".toList

/-- `entryID`. -/
def entryID (hash : Str → Str) (source : EntrySource) (key : Str) : Str :=
  if source = .manual then hash (manualMark ++ key) else hash key

/-- What an entry is addressed by: a manual one by its name, any other by its path. -/
def ConnEntry.key (e : ConnEntry) : Str :=
  if e.source = .manual then e.name else normPath e.path

/-! ## 3. The registry and its file -/

/-- The steps of `save`, in their order. -/
inductive SaveStep where
  | mkdirAll
  | marshal
  | createTemp
  | chmod
  | write
  | close
  | rename
  deriving DecidableEq

def saveSteps : List SaveStep :=
  [.mkdirAll, .marshal, .createTemp, .chmod, .write, .close, .rename]

theorem mem_saveSteps (step : SaveStep) : step ∈ saveSteps := by
  cases step <;> decide

/-- What a call gets from outside: the clock, and which steps of `save` fail. -/
structure SaveEnv where
  now : Time
  fails : SaveStep → Bool

/-- `os.ErrExist`; the same with the message that names the connection; `os.ErrNotExist`; the
    error of a step of `save`. -/
inductive RegistryErr where
  | exist
  | nameTaken (name : Str)
  | notExist
  | save (step : SaveStep)
  deriving DecidableEq

/-- `yaml.Marshal` and `yaml.Unmarshal` of the file's `connections`. -/
structure Yaml (B : Type) where
  marshal : List ConnEntry → B
  unmarshal : B → Option (List ConnEntry)

/-- `ConnRegistry`, and the contents of `connections.yaml` (`none`: no such file). -/
structure ConnRegistry (B : Type) where
  entries : List ConnEntry
  file : Option B
  deriving DecidableEq

/-- A call's error and what it leaves. -/
abbrev Outcome (B : Type) := Option RegistryErr × ConnRegistry B

section Calls

variable {B : Type} (hash : Str → Str) (yaml : Yaml B)

/-- An id for an entry from a file that has none. -/
def backfill (e : ConnEntry) : ConnEntry :=
  if e.id = [] then
    if e.source = .manual then { e with id := entryID hash .manual e.name }
    else { e with id := entryID hash .auto (normPath e.path) }
  else e

/-- `LoadRegistry`: a missing or malformed file is an empty registry. -/
def loadEntries (file : Option B) : List ConnEntry :=
  match file with
  | none => []
  | some data =>
      match yaml.unmarshal data with
      | none => []
      | some es => es.map (backfill hash)

namespace ConnRegistry

/-- `save`: the temporary file takes the place of the old one if every step succeeds; the first
    step that fails ends it. -/
def save (env : SaveEnv) (r : ConnRegistry B) : Outcome B :=
  match saveSteps.find? env.fails with
  | some step => (some (.save step), r)
  | none => (none, { r with file := some (yaml.marshal r.entries) })

/-- An entry of this kind at this path. -/
def isAt (source : EntrySource) (key : Str) (e : ConnEntry) : Bool :=
  decide (e.source = source) && decide (normPath e.path = key)

/-- A manual entry of this name. -/
def isNamed (name : Str) (e : ConnEntry) : Bool :=
  decide (e.source = .manual) && decide (e.name = name)

/-- Nothing that an upsert writes would change. -/
def sameAs (cur e : ConnEntry) : Bool :=
  decide (cur.id = e.id) && decide (cur.name = e.name) && decide (cur.type = e.type) &&
    decide (cur.path = e.path) && cur.metadata.equal e.metadata

/-- The entry `UpsertAuto` works with. -/
def autoEntry (e : ConnEntry) : ConnEntry :=
  { e with source := .auto, id := entryID hash .auto (normPath e.path) }

/-- The entry `Add` and `Update` write. -/
def manualEntry (now : Time) (e : ConnEntry) : ConnEntry :=
  { e with source := .manual, id := entryID hash .manual e.name, updatedAt := now }

/-- An auto entry, refreshed: everything but its kind and its tombstone is new. -/
def refreshed (now : Time) (cur e : ConnEntry) : ConnEntry :=
  { cur with
    id := e.id, name := e.name, type := e.type, path := e.path, metadata := e.metadata
    updatedAt := now }

/-- `UpsertAuto`. -/
def upsertAuto (env : SaveEnv) (e₀ : ConnEntry) (r : ConnRegistry B) : Outcome B :=
  let e := autoEntry hash e₀
  let key := normPath e.path
  if r.entries.any (isAt .manual key) then (none, r)
  else
    match splitFirst (isAt .auto key) r.entries with
    | some (pre, cur, post) =>
        if sameAs cur e then (none, r)
        else save yaml env { r with entries := pre ++ refreshed env.now cur e :: post }
    | none => save yaml env { r with entries := r.entries ++ [{ e with updatedAt := env.now }] }

/-- `Add`. -/
def add (env : SaveEnv) (e : ConnEntry) (r : ConnRegistry B) : Outcome B :=
  if r.entries.any (isNamed e.name) then (some .exist, r)
  else save yaml env { r with entries := r.entries ++ [manualEntry hash env.now e] }

/-- A manual entry with this id. -/
def isManualId (id : Str) (e : ConnEntry) : Bool :=
  decide (e.source = .manual) && decide (e.id = id)

/-- `Update`. It returns the new id when there is no error: `entryID` of the new name. -/
def update (env : SaveEnv) (e : ConnEntry) (r : ConnRegistry B) : Outcome B :=
  match splitFirst (isManualId e.id) r.entries with
  | none => (some .notExist, r)
  | some (pre, _, post) =>
      if (pre ++ post).any (isNamed e.name) then (some (.nameTaken e.name), r)
      else save yaml env { r with entries := pre ++ manualEntry hash env.now e :: post }

/-- What `Delete` leaves of an entry. -/
def deleted (id : Str) (e : ConnEntry) : Option ConnEntry :=
  if e.id = id then
    if e.source = .manual then none else some { e with dismissed := true }
  else some e

/-- `Delete`. -/
def delete (env : SaveEnv) (id : Str) (r : ConnRegistry B) : Outcome B :=
  let out := { r with entries := r.entries.filterMap (deleted id) }
  if r.entries.any fun e => decide (e.id = id) then save yaml env out else (none, out)

/-- A tombstone at this path. -/
def isTombstone (key : Str) (e : ConnEntry) : Bool :=
  decide (e.source ≠ .manual) && e.dismissed && decide (normPath e.path = key)

/-- `Undismiss`. -/
def undismiss (env : SaveEnv) (path : Str) (r : ConnRegistry B) : Outcome B :=
  match splitFirst (isTombstone (normPath path)) r.entries with
  | none => (none, r)
  | some (pre, e, post) =>
      save yaml env
        { r with entries := pre ++ { e with dismissed := false, updatedAt := env.now } :: post }

end ConnRegistry

/-- The calls that change the registry. -/
inductive RegOp where
  | upsertAuto (e : ConnEntry)
  | add (e : ConnEntry)
  | update (e : ConnEntry)
  | delete (id : Str)
  | undismiss (path : Str)
  deriving DecidableEq

/-- One call. -/
def ConnRegistry.apply (op : RegOp) (env : SaveEnv) (r : ConnRegistry B) : Outcome B :=
  match op with
  | .upsertAuto e => r.upsertAuto hash yaml env e
  | .add e => r.add hash yaml env e
  | .update e => r.update hash yaml env e
  | .delete id => r.delete yaml env id
  | .undismiss path => r.undismiss yaml env path

/-! ## 4. A call that fails -/

/-- The call writes something new to the entries, said of the state before it. -/
def ConnRegistry.Edits (now : Time) (r : ConnRegistry B) : RegOp → Prop
  | .upsertAuto e =>
      r.entries.any (isAt .manual (normPath e.path)) = false ∧
        ∀ pre cur post, splitFirst (isAt .auto (normPath e.path)) r.entries = some (pre, cur, post) →
          sameAs cur (autoEntry hash e) = false
  | .add e => r.entries.any (isNamed e.name) = false
  | .update e =>
      ∃ pre old post, splitFirst (isManualId e.id) r.entries = some (pre, old, post) ∧
        (pre ++ post).any (isNamed e.name) = false ∧ manualEntry hash now e ≠ old
  | .delete id => ∃ e ∈ r.entries, e.id = id ∧ (e.source = .manual ∨ e.dismissed = false)
  | .undismiss path => ∃ e ∈ r.entries, isTombstone (normPath path) e = true

namespace ConnRegistry

variable {hash yaml} {r : ConnRegistry B} {env : SaveEnv}

theorem save_of_fails {step : SaveStep} (h : env.fails step = true) (r : ConnRegistry B) :
    ∃ err, save yaml env r = (some err, r) := by
  cases hf : saveSteps.find? env.fails with
  | none => exact absurd h (by simpa using List.find?_eq_none.mp hf step (mem_saveSteps step))
  | some failed =>
      refine ⟨.save failed, ?_⟩
      unfold save
      rw [hf]

theorem save_of_succeeds (h : ∀ step, env.fails step = false) (r : ConnRegistry B) :
    save yaml env r = (none, { r with file := some (yaml.marshal r.entries) }) := by
  have hf : saveSteps.find? env.fails = none :=
    List.find?_eq_none.mpr fun step _ => by simp [h step]
  unfold save
  rw [hf]

theorem apply_upsertAuto (e : ConnEntry) : r.apply hash yaml (.upsertAuto e) env =
    if r.entries.any (isAt .manual (normPath e.path)) then (none, r)
    else
      match splitFirst (isAt .auto (normPath e.path)) r.entries with
      | some (pre, cur, post) =>
          if sameAs cur (autoEntry hash e) then (none, r)
          else
            save yaml env
              { r with entries := pre ++ refreshed env.now cur (autoEntry hash e) :: post }
      | none =>
          save yaml env
            { r with entries := r.entries ++ [{ autoEntry hash e with updatedAt := env.now }] } :=
  rfl

theorem apply_add (e : ConnEntry) : r.apply hash yaml (.add e) env =
    if r.entries.any (isNamed e.name) then (some .exist, r)
    else save yaml env { r with entries := r.entries ++ [manualEntry hash env.now e] } := rfl

theorem apply_update (e : ConnEntry) : r.apply hash yaml (.update e) env =
    match splitFirst (isManualId e.id) r.entries with
    | none => (some .notExist, r)
    | some (pre, _, post) =>
        if (pre ++ post).any (isNamed e.name) then (some (.nameTaken e.name), r)
        else save yaml env { r with entries := pre ++ manualEntry hash env.now e :: post } := rfl

theorem apply_delete (id : Str) : r.apply hash yaml (.delete id) env =
    if r.entries.any fun e => decide (e.id = id) then
      save yaml env { r with entries := r.entries.filterMap (deleted id) }
    else (none, { r with entries := r.entries.filterMap (deleted id) }) := rfl

theorem apply_undismiss (path : Str) : r.apply hash yaml (.undismiss path) env =
    match splitFirst (isTombstone (normPath path)) r.entries with
    | none => (none, r)
    | some (pre, e, post) =>
        save yaml env
          { r with entries := pre ++ { e with dismissed := false, updatedAt := env.now } :: post } :=
  rfl

/-- An upsert that is not skipped changes the entry. -/
theorem refreshed_ne {now : Time} {cur e : ConnEntry} (h : sameAs cur e = false) :
    refreshed now cur e ≠ cur := by
  intro heq
  have hs : sameAs cur e = true := by
    rw [← heq]
    simp [sameAs, refreshed, Metadata.equal_refl]
  rw [hs] at h
  cases h

theorem append_cons_ne {l₁ l₂ : List ConnEntry} {x y : ConnEntry} (h : x ≠ y) :
    l₁ ++ x :: l₂ ≠ l₁ ++ y :: l₂ := fun he =>
  h (List.cons.inj (List.append_cancel_left he)).1

/-- `Delete` leaves the entries as they are exactly where it finds tombstones only. -/
theorem filterMap_deleted_eq {id : Str} {l : List ConnEntry} :
    l.filterMap (deleted id) = l ↔
      ∀ e ∈ l, e.id = id → e.source ≠ .manual ∧ e.dismissed = true := by
  induction l with
  | nil => simp
  | cons e l ih =>
      rw [List.forall_mem_cons, ← ih]
      unfold deleted
      by_cases hid : e.id = id
      · by_cases hm : e.source = .manual
        · simp only [hid, hm, if_true, List.filterMap_cons]
          refine iff_of_false ?_ (by simp)
          intro heq
          have hlen := List.length_filterMap_le (deleted id) l
          have := congrArg List.length heq
          rw [List.length_cons] at this
          unfold deleted at hlen
          omega
        · simp only [hid, hm, if_true, if_false, List.filterMap_cons, List.cons.injEq]
          cases e
          simp_all
      · simp [hid]

/-- A call that edits: what it saves is new. -/
theorem apply_of_edits {op : RegOp} (h : r.Edits hash env.now op) :
    ∃ es, es ≠ r.entries ∧ r.apply hash yaml op env = save yaml env { r with entries := es } := by
  cases op with
  | upsertAuto e =>
      obtain ⟨hman, hcur⟩ := h
      rw [apply_upsertAuto]
      simp only [hman, Bool.false_eq_true, if_false]
      cases hs : splitFirst (isAt .auto (normPath e.path)) r.entries with
      | none => exact ⟨_, by simp, rfl⟩
      | some t =>
          obtain ⟨pre, cur, post⟩ := t
          have hsame := hcur pre cur post hs
          simp only [hsame, Bool.false_eq_true, if_false]
          refine ⟨_, ?_, rfl⟩
          rw [(splitFirst_eq_some hs).1]
          exact append_cons_ne (refreshed_ne hsame)
  | add e =>
      have hname : r.entries.any (isNamed e.name) = false := h
      rw [apply_add]
      simp only [hname, Bool.false_eq_true, if_false]
      exact ⟨_, by simp, rfl⟩
  | update e =>
      obtain ⟨pre, old, post, hs, hname, hne⟩ := h
      rw [apply_update]
      simp only [hs, hname, Bool.false_eq_true, if_false]
      refine ⟨_, ?_, rfl⟩
      rw [(splitFirst_eq_some hs).1]
      exact append_cons_ne hne
  | delete id =>
      obtain ⟨e, he, hid, hx⟩ := h
      have hany : (r.entries.any fun e => decide (e.id = id)) = true :=
        List.any_eq_true.mpr ⟨e, he, by simpa using hid⟩
      rw [apply_delete]
      simp only [hany, if_true]
      refine ⟨_, fun heq => ?_, rfl⟩
      obtain ⟨h1, h2⟩ := filterMap_deleted_eq.mp heq e he hid
      rcases hx with hx | hx
      · exact h1 hx
      · rw [h2] at hx
        cases hx
  | undismiss path =>
      obtain ⟨e, he, ht⟩ := h
      rw [apply_undismiss]
      cases hs : splitFirst (isTombstone (normPath path)) r.entries with
      | none => exact absurd ht (by simp [splitFirst_eq_none.mp hs e he])
      | some t =>
          obtain ⟨pre, cur, post⟩ := t
          obtain ⟨hl, hcur, -⟩ := splitFirst_eq_some hs
          refine ⟨_, ?_, rfl⟩
          rw [hl]
          refine append_cons_ne fun heq => ?_
          have hd := congrArg ConnEntry.dismissed heq
          simp only [isTombstone, Bool.and_eq_true] at hcur
          rw [hcur.1.2] at hd
          cases hd

/-- A call that does not edit: it returns at once, or saves what is there. -/
theorem apply_of_not_edits {op : RegOp} (h : ¬ r.Edits hash env.now op) :
    (∃ err, r.apply hash yaml op env = (err, r)) ∨ r.apply hash yaml op env = save yaml env r := by
  cases op with
  | upsertAuto e =>
      rw [apply_upsertAuto]
      cases hman : r.entries.any (isAt .manual (normPath e.path)) with
      | true => exact .inl ⟨_, rfl⟩
      | false =>
          simp only [Edits, hman, true_and, not_forall] at h
          obtain ⟨pre, cur, post, hs, hsame⟩ := h
          rw [Bool.not_eq_false] at hsame
          simp only [hs, hsame, if_true]
          exact .inl ⟨_, rfl⟩
  | add e =>
      simp only [Edits, Bool.not_eq_false] at h
      rw [apply_add, if_pos h]
      exact .inl ⟨_, rfl⟩
  | update e =>
      rw [apply_update]
      cases hs : splitFirst (isManualId e.id) r.entries with
      | none => exact .inl ⟨_, rfl⟩
      | some t =>
          obtain ⟨pre, old, post⟩ := t
          simp only
          by_cases hname : (pre ++ post).any (isNamed e.name) = true
          · rw [if_pos hname]
            exact .inl ⟨_, rfl⟩
          · rw [if_neg hname]
            rw [Bool.not_eq_true] at hname
            have hsame : manualEntry hash env.now e = old :=
              Classical.byContradiction fun hne => h ⟨pre, old, post, hs, hname, hne⟩
            rw [hsame, ← (splitFirst_eq_some hs).1]
            exact .inr rfl
  | delete id =>
      have heq : r.entries.filterMap (deleted id) = r.entries := by
        refine filterMap_deleted_eq.mpr fun e he hid => ?_
        refine ⟨fun hm => h ⟨e, he, hid, .inl hm⟩, ?_⟩
        exact Bool.not_eq_false _ ▸ fun hd => h ⟨e, he, hid, .inr hd⟩
      rw [apply_delete]
      simp only [heq]
      split
      · exact .inr rfl
      · exact .inl ⟨_, rfl⟩
  | undismiss path =>
      rw [apply_undismiss]
      have hs : splitFirst (isTombstone (normPath path)) r.entries = none :=
        splitFirst_eq_none.mpr fun e he => by
          rw [← Bool.not_eq_true]
          exact fun ht => h ⟨e, he, ht⟩
      rw [hs]
      exact .inl ⟨_, rfl⟩

/-- **A call that fails leaves memory and file as they were, exactly if** no step of `save` fails
    or the call writes nothing new: memory is edited before `save` and stays edited when it
    fails. -/
theorem unchanged_on_error_iff (hash : Str → Str) (yaml : Yaml B) (op : RegOp) (env : SaveEnv)
    (r : ConnRegistry B) :
    (∀ err, (r.apply hash yaml op env).1 = some err → (r.apply hash yaml op env).2 = r) ↔
      (∀ step, env.fails step = false) ∨ ¬ r.Edits hash env.now op := by
  by_cases hed : r.Edits hash env.now op
  · obtain ⟨es, hne, happ⟩ := @apply_of_edits B hash yaml r env op hed
    rw [happ, or_iff_left (not_not_intro hed)]
    constructor
    · intro h step
      rw [← Bool.not_eq_true]
      intro hf
      obtain ⟨err, hs⟩ := @save_of_fails B yaml env step hf { r with entries := es }
      rw [hs] at h
      exact hne (congrArg ConnRegistry.entries (h err rfl))
    · intro hok err herr
      rw [save_of_succeeds hok] at herr
      cases herr
  · refine iff_of_true ?_ (.inr hed)
    rcases @apply_of_not_edits B hash yaml r env op hed with ⟨err, happ⟩ | happ
    · rw [happ]
      exact fun _ _ => rfl
    · rw [happ]
      intro err herr
      by_cases hok : ∀ step, env.fails step = false
      · rw [save_of_succeeds hok] at herr
        cases herr
      · obtain ⟨step, hf⟩ := not_forall.mp hok
        obtain ⟨_, hs⟩ := @save_of_fails B yaml env step (by simpa using hf) r
        rw [hs]

/-- An entry for a redis store. -/
def redisEntry : ConnEntry := { name := "pg".toList, type := .redis }

/-- `Add` on an empty registry, when the new file cannot be renamed: it reports the failure, and
    the connection is there all the same. -/
theorem failed_add_stays :
    ∃ r : ConnRegistry (List ConnEntry),
      (r.apply id ⟨id, some⟩ (.add redisEntry) ⟨0, fun step => step = .rename⟩).1 =
        some (.save .rename) ∧
      r.entries = [] ∧
      (r.apply id ⟨id, some⟩ (.add redisEntry) ⟨0, fun step => step = .rename⟩).2.entries ≠ [] :=
  ⟨⟨[], none⟩, by decide, rfl, by decide⟩

end ConnRegistry

end Calls

end DevDashboard.Cmd
