/-
  File:      DevDashboard/Cmd/Components.lean
  Subject:   FROM DETECTED STORES TO REGISTRY ENTRIES AND BACK (`cmd/reconciler.go`:
             `resolveComponentSecrets`, the auto-persist loop of `reconcile`, `componentForEntry`,
             `underScanPath`, `componentFor`).

  An entry holds the path of a file, and the way back takes the first component that the file
  declares. The secrets service and the metadata that `translate` leaves are parameters
  (`Sources`).

  * `componentForEntry_of_file` -- what an entry at a component file gives back;
  * `persistAll_ref` -- after the loop every path has the entry of a component at it;
  * `detected_survive_iff` -- when every detected store comes back from the registry.
-/
import DevDashboard.Cmd.RegistryRun
import DevDashboard.StateStore.Detect

namespace DevDashboard.Cmd

open Lib StateStore Workflow ConnRegistry

/-! ## 1. Secrets -/

/-- `secrets.Status`. -/
inductive SecretStatus where
  | resolved
  | storeNotSpecified
  | storeNotFound
  | storeUnsupported
  | storeUnreadable
  | keyNotFound
  | emptyValue
  | forbidden
  deriving DecidableEq

def SecretStatus.text : SecretStatus → Str
  | .resolved => "resolved".toList
  | .storeNotSpecified => "store-not-specified".toList
  | .storeNotFound => "store-not-found".toList
  | .storeUnsupported => "store-unsupported".toList
  | .storeUnreadable => "store-unreadable".toList
  | .keyNotFound => "key-not-found".toList
  | .emptyValue => "empty-value".toList
  | .forbidden => "forbidden".toList

/-- `secrets.Result`. -/
structure SecretResult where
  status : SecretStatus
  value : Str
  detail : Str

/-- `Resolve` of the secrets service: of the store's name and a reference. -/
abbrev Secrets := Str → RefKind → Str → Str → SecretResult

/-- `fmt.Sprintf("%s unresolved (%s): %s", ...)`. -/
def unresolvedIssue (field : Str) (res : SecretResult) : Str :=
  field ++ " unresolved (".toList ++ res.status.text ++ "): ".toList ++ res.detail

/-- One field of the loop of `resolveComponentSecrets`: the metadata and the first issue. -/
def resolveField (svc : Secrets) (secretStore : Str) (acc : Dict Str Str × Str)
    (field : Str × SecretRef) : Dict Str Str × Str :=
  let res := svc secretStore (field.2.kind.getD .secretKeyRef) field.2.name field.2.key
  if res.status = .resolved then (acc.1.put field.1 res.value, acc.2)
  else if acc.2 = [] then (acc.1, unresolvedIssue field.1 res)
  else acc

/-- `resolveComponentSecrets`. The references are kept in the order of their names, which is the
    order of the sorted fields. -/
def resolveComponentSecrets (svc : Option Secrets) (c : StoreComponent) : Dict Str Str × Str :=
  match svc with
  | none => (c.metadata, [])
  | some svc => c.secretRefs.entries.foldl (resolveField svc c.secretStore) (c.metadata, [])

/-! ## 2. The component of an entry -/

/-- What components are built from. `translated` is the metadata that `Translate` leaves of a
    component with a path. -/
structure Sources where
  reader : YamlReader
  fs : FileSystem
  secretsSvc : Option Secrets
  translated : StoreComponent → Dict Str Str

/-- The name of a property. -/
def metaKeyText : MetaKey → Str
  | .redisHost => "redisHost".toList
  | .redisDB => "redisDB".toList
  | .connectionString => "connectionString".toList
  | .tableName => "tableName".toList
  | .tablePrefix => "tablePrefix".toList
  | .host => "host".toList
  | .server => "server".toList
  | .databaseName => "databaseName".toList
  | .collectionName => "collectionName".toList
  | .params => "params".toList
  | .keyPrefix => "keyPrefix".toList
  | .other name => name

/-- The metadata of a manual entry. -/
def Metadata.dict (m : Metadata) : Dict Str Str :=
  m.entries.foldl (fun d kv => d.put (metaKeyText kv.1) kv.2) .empty

/-- The component of a manual entry. -/
def manualComponent (e : ConnEntry) : StoreComponent where
  name := e.name
  type := e.type
  version := []
  metadata := e.metadata.dict
  secretRefs := .empty
  secretStore := []
  path := []

/-- What a connection reads of a component. -/
def connOf (c : StoreComponent) : Component :=
  ⟨c.name, c.type, fun k => (c.metadata.get (metaKeyText k)).getD []⟩

section Sources

variable (src : Sources)

/-- `translate`: a component without a path stays as it is. -/
def translate (c : StoreComponent) : StoreComponent :=
  if c.path = [] then c else { c with metadata := src.translated c }

/-- A component with its secrets filled in, translated. -/
def resolvedForm (c : StoreComponent) : StoreComponent :=
  translate src { c with metadata := (resolveComponentSecrets src.secretsSvc c).1 }

/-- `underScanPath`. -/
def underScanPath (cwd compPath scanPath : Str) : Bool :=
  let abs := Path.abs cwd scanPath
  decide (compPath = scanPath ∨ compPath = abs) || Path.inside (Path.rel abs compPath)

/-- The test of the loop of `componentForEntry`. -/
def isEntryOf (e : ConnEntry) (c : StoreComponent) : Bool :=
  decide (c.path = e.path) ||
    (decide (c.name = e.name) && underScanPath src.fs.cwd c.path e.path)

/-- `componentForEntry`, and the issue with its secrets. `det`: a detection that was made before,
    else one of the entry's path is made. -/
def componentForEntry (e : ConnEntry) (det : Option (List StoreComponent)) :
    StoreComponent × Str :=
  if e.source = .manual then (translate src (manualComponent e), [])
  else
    match (det.getD (detect src.reader src.fs [e.path])).find? (isEntryOf src e) with
    | some c => (resolvedForm src c, (resolveComponentSecrets src.secretsSvc c).2)
    | none =>
        ({ name := e.name, type := e.type, version := [], metadata := .empty
           secretRefs := .empty, secretStore := [], path := e.path }, [])

/-- `componentFor`. -/
def componentFor (entries : List ConnEntry) (id : Str) : Option StoreComponent :=
  (entries.find? fun e => decide (e.id = id)).map fun e => (componentForEntry src e none).1

/-- `resolveComponent` of an entry's id. -/
def resolveEntry (entries : List ConnEntry) (id : Str) : Option StoreComponent :=
  (componentFor src entries id).map (translate src)

/-- `resolveComponent`: `none` if nobody knows the id, `some none` if no store is elected. -/
def resolveComponent (entries : List ConnEntry) (active : Option StoreComponent) (id : Str) :
    Option (Option StoreComponent) :=
  if id = [] then some (active.map (translate src)) else (resolveEntry src entries id).map some

variable {src}

theorem resolvedForm_name (c : StoreComponent) : (resolvedForm src c).name = c.name := by
  unfold resolvedForm translate
  split <;> rfl

theorem resolvedForm_type (c : StoreComponent) : (resolvedForm src c).type = c.type := by
  unfold resolvedForm translate
  split <;> rfl

/-- Among detected components the name does not matter: nothing lies under a file. -/
theorem isEntryOf_iff {e : ConnEntry} {c : StoreComponent} {data data' : Str}
    (he : IsComponentFile src.fs e.path data) (hc : IsComponentFile src.fs c.path data') :
    isEntryOf src e c = decide (c.path = e.path) := by
  by_cases hpath : c.path = e.path
  · simp [isEntryOf, hpath]
  · have hin : Path.inside (Path.rel e.path c.path) = false := by
      rw [← Bool.not_eq_true, Path.inside_rel_iff he.abs hc.abs]
      exact fun hp => hpath (he.eq_of_prefix hc hp)
    simp [isEntryOf, underScanPath, he.abs_eq, hpath, hin]

/-- **What an entry at a component file gives back**: the first component of the file, whatever
    its name, and whichever detection covers the path. -/
theorem componentForEntry_of_find {e : ConnEntry} {c : StoreComponent} (hs : e.source ≠ .manual)
    {det : Option (List StoreComponent)}
    (h : (det.getD (detect src.reader src.fs [e.path])).find? (isEntryOf src e) = some c) :
    componentForEntry src e det =
      (resolvedForm src c, (resolveComponentSecrets src.secretsSvc c).2) := by
  unfold componentForEntry
  rw [if_neg hs, h]

theorem componentForEntry_of_file {e : ConnEntry} {data : Str} {c : StoreComponent}
    {cs : List StoreComponent} (hs : e.source ≠ .manual)
    (hfile : IsComponentFile src.fs e.path data)
    (hc : fileComponents src.reader e.path data = c :: cs) {paths : List Str}
    (hp : e.path ∈ paths) :
    (componentForEntry src e (some (detect src.reader src.fs paths))).1 = resolvedForm src c := by
  have hfind : (detect src.reader src.fs paths).find? (isEntryOf src e) = some c := by
    have hcongr : (detect src.reader src.fs paths).filter (isEntryOf src e) =
        (detect src.reader src.fs paths).filter fun x => decide (x.path = e.path) := by
      refine List.filter_congr fun x hx => ?_
      obtain ⟨data', hx', -⟩ := mem_detect hx
      exact isEntryOf_iff hfile hx'
    rw [← List.head?_filter, hcongr, filter_detect_of_mem hfile hp, hc]
    rfl
  rw [componentForEntry_of_find hs hfind]

theorem componentForEntry_none {e : ConnEntry} : componentForEntry src e none =
    componentForEntry src e (some (detect src.reader src.fs [e.path])) := rfl

end Sources

/-! ## 3. The auto-persist loop -/

section Persist

variable {B : Type} (hash : Str → Str) (yaml : Yaml B)

/-- The entry that `reconcile` upserts for a component. -/
def autoRef (c : StoreComponent) : ConnEntry := { name := c.name, type := c.type, path := c.path }

/-- The entry that `AddStore` and `UpdateStore` hand to the registry. -/
def manualRef (id name : Str) (type : StoreType) (metadata : Metadata) : ConnEntry :=
  { id := id, name := name, type := type, source := .manual, metadata := metadata }

/-- The auto-persist loop, whose saves succeed; `clock` gives the time of each upsert. -/
def persistAll (clock : Nat → Time) : Nat → List StoreComponent → ConnRegistry B → ConnRegistry B
  | _, [], r => r
  | n, c :: cs, r =>
      persistAll clock (n + 1) cs (r.apply hash yaml (.upsertAuto (autoRef c)) (calm (clock n))).2

/-- An auto entry for a component. -/
structure RefersTo (e : ConnEntry) (c : StoreComponent) : Prop where
  source : e.source = .auto
  path : e.path = c.path
  name : e.name = c.name
  type : e.type = c.type

/-- No manual entry is at the path of a component. -/
def NoManual (cs : List StoreComponent) (l : List ConnEntry) : Prop :=
  ∀ c ∈ cs, ∀ e ∈ l, isAt .manual (normPath c.path) e = false

variable {hash yaml} {r : ConnRegistry B} {c : StoreComponent}

/-- After its upsert a component has its entry. -/
theorem upsertAuto_ref (now : Time) (h : ∀ e ∈ r.entries, isAt .manual (normPath c.path) e = false) :
    ∃ e ∈ (r.apply hash yaml (.upsertAuto (autoRef c)) (calm now)).2.entries, RefersTo e c := by
  have hany : ¬ r.entries.any (isAt .manual (normPath (autoRef c).path)) = true :=
    any_eq_false_iff.mpr h
  rw [apply_upsertAuto, if_neg hany]
  split
  · rename_i pre cur post hs
    obtain ⟨hl, hcur, -⟩ := splitFirst_eq_some hs
    simp only [isAt, Bool.and_eq_true, decide_eq_true_eq] at hcur
    split
    · rename_i hsame
      simp only [sameAs, Bool.and_eq_true, decide_eq_true_eq] at hsame
      obtain ⟨⟨⟨⟨-, hname⟩, htype⟩, hpath⟩, -⟩ := hsame
      exact ⟨cur, by rw [hl]; simp, hcur.1, hpath, hname, htype⟩
    · rw [save_calm]
      exact ⟨_, List.mem_append_right pre List.mem_cons_self, hcur.1, rfl, rfl, rfl⟩
  · rw [save_calm]
    exact ⟨_, List.mem_append_right _ (List.mem_singleton_self _), rfl, rfl, rfl, rfl⟩

/-- An upsert leaves the entries at other paths, and no manual entry is new. -/
theorem upsertAuto_frame (now : Time) (e : ConnEntry) :
    (∀ x ∈ r.entries, normPath x.path ≠ normPath e.path →
      x ∈ (r.apply hash yaml (.upsertAuto e) (calm now)).2.entries) ∧
    ∀ x ∈ (r.apply hash yaml (.upsertAuto e) (calm now)).2.entries, x.source = .manual →
      x ∈ r.entries := by
  rcases @apply_cases B hash yaml (.upsertAuto e) now r with h | ⟨es, hr, h⟩
  · rw [h]
    exact ⟨fun x hx _ => hx, fun x hx _ => hx⟩
  · rw [h]
    show (∀ x ∈ r.entries, _ → x ∈ es) ∧ ∀ x ∈ es, _ → x ∈ r.entries
    generalize r.entries = l at hr ⊢
    cases hr with
    | @refresh _ cur pre post hcur =>
        simp only [isAt, Bool.and_eq_true, decide_eq_true_eq] at hcur
        refine ⟨fun x hx hne => ?_, fun x hx hm => ?_⟩
        · rcases List.mem_append.mp hx with hx | hx
          · exact List.mem_append_left _ hx
          · rcases List.mem_cons.mp hx with rfl | hx
            · exact absurd hcur.2 hne
            · exact List.mem_append_right _ (List.mem_cons_of_mem _ hx)
        · rcases List.mem_append.mp hx with hx | hx
          · exact List.mem_append_left _ hx
          · rcases List.mem_cons.mp hx with rfl | hx
            · exact absurd (hcur.1.symm.trans hm) (by simp)
            · exact List.mem_append_right _ (List.mem_cons_of_mem _ hx)
    | insert hnew =>
        refine ⟨fun x hx _ => List.mem_append_left _ hx, fun x hx hm => ?_⟩
        rcases List.mem_append.mp hx with hx | hx
        · exact hx
        · rw [List.mem_singleton.mp hx] at hm
          cases hm

theorem NoManual.upsertAuto {cs : List StoreComponent} (h : NoManual cs r.entries) (now : Time)
    (e : ConnEntry) :
    NoManual cs (r.apply hash yaml (.upsertAuto e) (calm now)).2.entries := by
  intro c hc x hx
  by_cases hm : x.source = .manual
  · exact h c hc x ((upsertAuto_frame now e).2 x hx hm)
  · simp [isAt, hm]

theorem mem_persistAll {clock : Nat → Time} {n : Nat} {cs : List StoreComponent} {e : ConnEntry}
    (he : e ∈ r.entries) (hne : ∀ c ∈ cs, normPath e.path ≠ normPath c.path) :
    e ∈ (persistAll hash yaml clock n cs r).entries := by
  induction cs generalizing n r with
  | nil => exact he
  | cons c cs ih =>
      obtain ⟨hc, hne⟩ := List.forall_mem_cons.mp hne
      exact ih ((upsertAuto_frame (clock n) (autoRef c)).1 e he hc) hne

/-- **After the loop every path has the entry of a component at it**: of the last one. -/
theorem persistAll_ref {clock : Nat → Time} {n : Nat} {cs : List StoreComponent}
    (hman : NoManual cs r.entries) (hclean : ∀ c ∈ cs, Path.clean c.path = c.path) {a : Str}
    (ha : ∃ c ∈ cs, c.path = a) :
    ∃ c ∈ cs, c.path = a ∧ ∃ e ∈ (persistAll hash yaml clock n cs r).entries, RefersTo e c := by
  induction cs generalizing n r with
  | nil =>
      obtain ⟨c, hc, -⟩ := ha
      cases hc
  | cons x cs ih =>
      obtain ⟨hx, hcs⟩ := List.forall_mem_cons.mp hclean
      have hman' : NoManual cs
          (r.apply hash yaml (.upsertAuto (autoRef x)) (calm (clock n))).2.entries :=
        NoManual.upsertAuto (fun c hc => hman c (List.mem_cons_of_mem x hc)) _ _
      by_cases hlater : ∃ c ∈ cs, c.path = a
      · obtain ⟨c, hc, hpath, he⟩ := @ih _ (n + 1) hman' hcs hlater
        exact ⟨c, List.mem_cons_of_mem x hc, hpath, he⟩
      · -- `x` is the last one at the path: nothing touches its entry again
        have hxa : x.path = a := by
          obtain ⟨c, hc, hpath⟩ := ha
          rcases List.mem_cons.mp hc with rfl | hc
          · exact hpath
          · exact absurd ⟨c, hc, hpath⟩ hlater
        obtain ⟨e, he, href⟩ :=
          @upsertAuto_ref B hash yaml r x (clock n) (hman x List.mem_cons_self)
        refine ⟨x, List.mem_cons_self, hxa, e, ?_, href⟩
        show e ∈ (persistAll hash yaml clock (n + 1) cs _).entries
        refine mem_persistAll he fun c hc heq => ?_
        refine hlater ⟨c, hc, ?_⟩
        have hclean' : Path.clean x.path = Path.clean c.path := href.path ▸ heq
        rw [← hcs c hc, ← hclean', hx, hxa]

end Persist

/-! ## 4. The way back -/

section Survive

variable {B : Type} (hash : Str → Str) (yaml : Yaml B) (src : Sources)

/-- A detected component comes back from the registry: it has an entry with its path, name and
    type, and both the entry alone and any detection that covers its path give the component
    itself, resolved and translated. -/
def Survives (l : List ConnEntry) (c : StoreComponent) : Prop :=
  ∃ e ∈ l, RefersTo e c ∧ (componentForEntry src e none).1 = resolvedForm src c ∧
    ∀ paths, e.path ∈ paths →
      (componentForEntry src e (some (detect src.reader src.fs paths))).1 = resolvedForm src c

variable {hash yaml src}

/-- The first component of a file that declares one. -/
theorem exists_first {paths : List Str} {c : StoreComponent}
    (hc : c ∈ detect src.reader src.fs paths) :
    ∃ data first rest, IsComponentFile src.fs c.path data ∧
      fileComponents src.reader c.path data = first :: rest ∧
      first ∈ detect src.reader src.fs paths ∧ first.path = c.path := by
  obtain ⟨data, hfile, hgroup⟩ := mem_detect hc
  have hmem : c ∈ fileComponents src.reader c.path data := by
    rw [← hgroup]
    exact List.mem_filter.mpr ⟨hc, by simp⟩
  cases hfc : fileComponents src.reader c.path data with
  | nil =>
      rw [hfc] at hmem
      cases hmem
  | cons first rest =>
      have hfirst : first ∈ fileComponents src.reader c.path data := by
        rw [hfc]
        exact List.mem_cons_self
      refine ⟨data, first, rest, hfile, hfc, ?_, path_of_mem_fileComponents hfirst⟩
      rw [← hgroup] at hfirst
      exact (List.mem_filter.mp hfirst).1

/-- **Every detected store comes back from the registry, exactly if** the stores of one file are
    the same once they are resolved and translated: the registry has one entry for each file, and
    the way back takes the first store of the file. -/
theorem detected_survive_iff (clock : Nat → Time) (paths : List Str) (r : ConnRegistry B)
    (hman : NoManual (detect src.reader src.fs paths) r.entries) :
    (∀ c ∈ detect src.reader src.fs paths,
      Survives src (persistAll hash yaml clock 0 (detect src.reader src.fs paths) r).entries c) ↔
    ∀ c ∈ detect src.reader src.fs paths, ∀ c' ∈ detect src.reader src.fs paths,
      c'.path = c.path → resolvedForm src c' = resolvedForm src c := by
  constructor
  · intro h
    have hfirst : ∀ c ∈ detect src.reader src.fs paths, ∀ data first rest,
        IsComponentFile src.fs c.path data →
        fileComponents src.reader c.path data = first :: rest →
        resolvedForm src c = resolvedForm src first := by
      intro c hc data first rest hfile hfc
      obtain ⟨e, -, href, halone, -⟩ := h c hc
      rw [← href.path] at hfile hfc
      rw [← halone, componentForEntry_none]
      exact componentForEntry_of_file (by simp [href.source]) hfile hfc (by simp)
    intro c hc c' hc' hpath
    obtain ⟨data, first, rest, hfile, hfc, -⟩ := exists_first hc
    rw [hfirst c hc data first rest hfile hfc]
    rw [← hpath] at hfile hfc
    exact hfirst c' hc' data first rest hfile hfc
  · intro h c hc
    have hclean : ∀ x ∈ detect src.reader src.fs paths, Path.clean x.path = x.path := by
      intro x hx
      obtain ⟨data, hfile, -⟩ := mem_detect hx
      exact hfile.clean
    obtain ⟨c', hc', hpath, e, he, href⟩ :=
      @persistAll_ref B hash yaml r clock 0 _ hman hclean c.path ⟨c, hc, rfl⟩
    obtain ⟨data, first, rest, hfile, hfc, hfirst, hfpath⟩ := exists_first hc
    have hform := h c hc c' hc' hpath
    have hback : ∀ ps, e.path ∈ ps →
        (componentForEntry src e (some (detect src.reader src.fs ps))).1 = resolvedForm src c := by
      intro ps hps
      have hep : e.path = c.path := href.path.trans hpath
      rw [← h c hc first hfirst hfpath]
      rw [← hep] at hfile hfc
      exact componentForEntry_of_file (by simp [href.source]) hfile hfc hps
    refine ⟨e, he, ⟨href.source, href.path.trans hpath, ?_, ?_⟩, hback _ (by simp), hback⟩
    · rw [href.name, ← @resolvedForm_name src c', hform, resolvedForm_name]
    · rw [href.type, ← @resolvedForm_type src c', hform, resolvedForm_type]

end Survive

/-! ## 5. A file with one store and a file with two -/

/-- A text of these lines. -/
def document (lines : List String) : Str := lines.flatMap fun l => l.toList ++ ['\n']

/-- A YAML document, in flow style, that declares a redis store with this name. -/
def redisDoc (name : Char) : Str :=
  "\x7bkind: Component, metadata: \x7bname: ".toList ++ [name] ++
  "\x7d, spec: \x7btype: state.redis\x7d\x7d\n".toList

/-- The store it declares. -/
def redisStore (name : Char) : StoreComponent where
  name := [name]
  type := .redis
  version := []
  metadata := .empty
  secretRefs := .empty
  secretStore := []
  path := sYaml

/-- Reads such documents, whatever blank lines stand around them. -/
def redisReader : YamlReader where
  rawComponent doc :=
    (['a', 'b'].find? fun n => decide (trimSpace doc = trimSpace (redisDoc n))).map fun n =>
      { kind := componentKind, name := [n], type := storeTypePrefix ++ "redis".toList
        version := [], metadata := [] }
  refDoc _ := some ⟨[], [], []⟩

/-- Nothing but the file `/a/s.yaml`. -/
def oneFile (data : Str) : FileSystem where
  cwd := ['/']
  entry s := if s = Path.segs sYaml then .file (some data) else .absent
  height _ := 0
  cwd_abs := rfl
  proper s names h := by split at h <;> cases h
  height_lt s names h := by split at h <;> cases h
  leaf s _ t h ht := by
    split at h
    · rename_i hs
      rw [hs, if_neg fun he => ht (List.append_right_eq_self.mp he)]
    · cases h

/-- No secrets, no compose project. -/
def plainSources (data : Str) : Sources := ⟨redisReader, oneFile data, none, StoreComponent.metadata⟩

def twoStores : Str := redisDoc 'a' ++ dashes ++ ['\n'] ++ redisDoc 'b'

theorem detect_two :
    detect redisReader (oneFile twoStores) [sYaml] = [redisStore 'a', redisStore 'b'] := by
  decide +kernel

/-- A directory with a store in each of two files, and a file that is no YAML. -/
def twoFiles : FileSystem where
  cwd := ['/']
  entry s :=
    if s = ["a".toList] then .dir ["notes.txt".toList, "s.yaml".toList, "t.yaml".toList]
    else if s = ["a".toList, "s.yaml".toList] then .file (some (redisDoc 'a'))
    else if s = ["a".toList, "t.yaml".toList] then .file (some (redisDoc 'b'))
    else if s = ["a".toList, "notes.txt".toList] then .file (some [])
    else .absent
  height s := if s = ["a".toList] then 1 else 0
  cwd_abs := rfl
  proper s names h := by
    split_ifs at h
    cases h
    intro n hn
    constructor <;> revert n <;> decide
  height_lt s names h := by
    split_ifs at h with hs
    cases h
    rw [hs]
    decide
  leaf s data t h ht := by
    obtain ⟨x, t, rfl⟩ := List.exists_cons_of_ne_nil ht
    split_ifs at h with _ hs hs hs <;> simp [hs]

theorem detect_twoFiles : detect redisReader twoFiles ["/a".toList] =
    [redisStore 'a', { redisStore 'b' with path := "/a/t.yaml".toList }] := by decide +kernel

theorem detected_survive_iff_twoFiles :
    Survives ⟨redisReader, twoFiles, none, StoreComponent.metadata⟩
        (persistAll id plainYaml (fun _ => 0) 0
          (detect redisReader twoFiles ["/a".toList]) newRegistry).entries (redisStore 'a') ∧
      Survives ⟨redisReader, twoFiles, none, StoreComponent.metadata⟩
        (persistAll id plainYaml (fun _ => 0) 0
          (detect redisReader twoFiles ["/a".toList]) newRegistry).entries
        { redisStore 'b' with path := "/a/t.yaml".toList } := by
  have hall := (@detected_survive_iff _ id plainYaml
    ⟨redisReader, twoFiles, none, StoreComponent.metadata⟩ (fun _ => 0) ["/a".toList] newRegistry
    (fun _ _ _ he => absurd he List.not_mem_nil)).mpr ?_
  · change ∀ c ∈ detect redisReader twoFiles ["/a".toList], _ at hall
    rw [detect_twoFiles] at hall ⊢
    exact ⟨hall _ (by simp), hall _ (by simp)⟩
  · intro c hc c' hc' hpath
    have hne : sYaml ≠ "/a/t.yaml".toList := by decide
    change c ∈ detect redisReader twoFiles ["/a".toList] at hc
    change c' ∈ detect redisReader twoFiles ["/a".toList] at hc'
    rw [detect_twoFiles, List.mem_pair] at hc hc'
    rcases hc with rfl | rfl <;> rcases hc' with rfl | rfl
    · rfl
    · exact absurd hpath hne.symm
    · exact absurd hpath hne
    · rfl

/-- A file with two documents: the registry, empty before, has one entry afterwards, and what it
    gives back is the first store. The second does not come back. -/
theorem second_store_lost :
    redisStore 'b' ∈ detect redisReader (oneFile twoStores) [sYaml] ∧
    NoManual (detect redisReader (oneFile twoStores) [sYaml])
      (newRegistry : ConnRegistry (List ConnEntry)).entries ∧
    ¬ Survives (plainSources twoStores)
      (persistAll id plainYaml (fun _ => 0) 0
        (detect redisReader (oneFile twoStores) [sYaml]) newRegistry).entries (redisStore 'b') := by
  rw [detect_two]
  refine ⟨by simp, fun _ _ _ he => absurd he List.not_mem_nil, ?_⟩
  intro ⟨e, he, _, halone, _⟩
  have hall : ∀ x ∈ (persistAll id plainYaml (fun _ => 0) 0 [redisStore 'a', redisStore 'b']
      newRegistry).entries, (componentForEntry (plainSources twoStores) x none).1 ≠
        resolvedForm (plainSources twoStores) (redisStore 'b') := by
    decide +kernel
  exact hall e he halone

end DevDashboard.Cmd
