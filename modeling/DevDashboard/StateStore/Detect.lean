/-
  File:      DevDashboard/StateStore/Detect.lean
  Subject:   FINDING STATE STORES IN COMPONENT FILES (`pkg/statestore/detect.go`, `ParseRefs` of
             `pkg/secrets/refs.go`).

  `Detect` walks files and directories and reads every YAML document of every YAML file. The file
  system is what `Lstat`, `ReadDir` and `ReadFile` answer at a place; the YAML library is a
  parameter (`YamlReader`).

  * `walk_eq` -- the walk, without the bound on its depth;
  * `IsComponentFile` -- a YAML file at its absolute path;
  * `mem_detect`, `filter_detect_of_mem` -- what is found are the components of such files, those
    of one file once, in the order of its documents.
-/
import DevDashboard.Lib.Dict
import DevDashboard.Lib.Path
import DevDashboard.StateStore.ConnInfo
import Mathlib.Data.List.Lex
import Mathlib.Data.Char

namespace DevDashboard.StateStore

open Lib

/-! ## 1. Files and directories -/

/-- What stands at a place. -/
inductive FileEntry where
  | absent
  /-- Anything but a directory, a symbolic link to one too; `none` if it cannot be read. -/
  | file (data : Option Str)
  /-- The names, sorted (none if it cannot be read). -/
  | dir (names : List Str)

/-- The file system. A place is the list of the names that lead to it from the root. -/
structure FileSystem where
  cwd : Str
  entry : List Str → FileEntry
  /-- How deep the directories below a place go. -/
  height : List Str → Nat
  cwd_abs : Path.isAbs cwd = true
  proper : ∀ s names, entry s = .dir names → ∀ n ∈ names, Path.Proper n
  height_lt : ∀ s names, entry s = .dir names → ∀ n ∈ names, height (s ++ [n]) < height s
  leaf : ∀ s data t, entry s = .file (some data) → t ≠ [] → entry (s ++ t) = .absent

namespace FileSystem

variable (fs : FileSystem)

/-- The place a path leads to. -/
def place (p : Str) : List Str := Path.segs (Path.abs fs.cwd p)

/-- `os.Lstat` and `os.ReadFile`; no file has the empty path. -/
def stat (p : Str) : FileEntry := if p = [] then .absent else fs.entry (fs.place p)

/-- `filepath.Walk`, to a depth of at most `fuel`: the files it visits, with what they hold. -/
def walkFrom : Nat → Str → List (Str × Option Str)
  | 0, _ => []
  | fuel + 1, p =>
      match fs.stat p with
      | .absent => []
      | .file data => [(p, data)]
      | .dir names => names.flatMap fun n => walkFrom fuel (Path.join p n)

/-- `filepath.Walk`. -/
def walk (p : Str) : List (Str × Option Str) := fs.walkFrom (fs.height (fs.place p) + 1) p

variable {fs}

theorem ne_nil_of_stat {p : Str} {entry : FileEntry} (h : fs.stat p = entry)
    (hne : entry ≠ .absent) : p ≠ [] ∧ fs.entry (fs.place p) = entry := by
  unfold stat at h
  split at h
  · exact absurd h.symm hne
  · rename_i hp
    exact ⟨hp, h⟩

theorem place_join {p n : Str} (hp : p ≠ []) (hn : Path.Proper n) :
    fs.place (Path.join p n) = fs.place p ++ [n] := Path.segs_abs_join fs.cwd_abs hp hn

/-- Two bounds that are both enough give the same walk. -/
theorem walkFrom_congr {m n : Nat} {p : Str} (hm : fs.height (fs.place p) < m)
    (hn : fs.height (fs.place p) < n) : fs.walkFrom m p = fs.walkFrom n p := by
  induction m generalizing n p with
  | zero => omega
  | succ m ih =>
      cases n with
      | zero => omega
      | succ n =>
          cases hs : fs.stat p with
          | absent => simp only [walkFrom, hs]
          | file data => simp only [walkFrom, hs]
          | dir names =>
              simp only [walkFrom, hs]
              obtain ⟨hp, hent⟩ := ne_nil_of_stat hs (by simp)
              refine List.flatMap_congr fun x hx => ?_
              have hlt := fs.height_lt _ _ hent x hx
              rw [← place_join hp (fs.proper _ _ hent x hx)] at hlt
              exact ih (by omega) (by omega)

/-- **The walk, without the bound on its depth.** -/
theorem walk_eq (p : Str) : fs.walk p =
    match fs.stat p with
    | .absent => []
    | .file data => [(p, data)]
    | .dir names => names.flatMap fun n => fs.walk (Path.join p n) := by
  unfold walk
  rw [walkFrom]
  cases hs : fs.stat p with
  | absent => rfl
  | file data => rfl
  | dir names =>
      obtain ⟨hp, hent⟩ := ne_nil_of_stat hs (by simp)
      refine List.flatMap_congr fun x hx => ?_
      have hlt := fs.height_lt _ _ hent x hx
      rw [← place_join hp (fs.proper _ _ hent x hx)] at hlt
      exact walkFrom_congr (by omega) (by omega)

theorem walk_of_file {p : Str} {data : Option Str} (h : fs.stat p = .file data) :
    fs.walk p = [(p, data)] := by
  rw [walk_eq, h]

theorem stat_of_mem_walkFrom {fuel : Nat} {p : Str} {v : Str × Option Str}
    (h : v ∈ fs.walkFrom fuel p) : fs.stat v.1 = .file v.2 := by
  induction fuel generalizing p with
  | zero => cases h
  | succ fuel ih =>
      unfold walkFrom at h
      split at h
      · cases h
      · rename_i hs
        rw [List.mem_singleton.mp h]
        exact hs
      · obtain ⟨n, -, hn⟩ := List.mem_flatMap.mp h
        exact ih hn

theorem stat_of_mem_walk {p : Str} {v : Str × Option Str} (h : v ∈ fs.walk p) :
    fs.stat v.1 = .file v.2 := stat_of_mem_walkFrom h

end FileSystem

/-! ## 2. YAML files and their documents -/

/-- The test of `strings.ToLower(filepath.Ext(path))`. Only the ASCII letters have one of these
    in lower case. -/
def isYaml (path : Str) : Bool :=
  decide ((Path.extOf path).map Char.toLower ∈ [".yaml".toList, ".yml".toList])

/-- `\s` of a regular expression. -/
def isBlank (c : Char) : Bool := decide (c ∈ ['\t', '\n', '\x0c', '\r', ' '])

def dashes : Str := "---".toList

/-- How much `---\s*$` takes at the beginning of a text: the blanks as far as they go, and then
    back to the last end of line among them if something else follows. -/
def separatorLength (s : Str) : Option Nat :=
  if Str.hasPrefix s dashes then
    let rest := s.drop 3
    let ws := rest.takeWhile isBlank
    if ws.length = rest.length then some (3 + ws.length)
    else if '\n' ∈ ws then some (3 + (ws.length - 1 - (ws.reverse.takeWhile (· ≠ '\n')).length))
    else none
  else none

/-- `yamlDocSeparator.Split`: `bol` says that a line begins here, `skip` characters of a separator
    are still to be dropped, `acc` is the current document, reversed. -/
def splitDocsFrom (bol : Bool) : Nat → Str → Str → List Str
  | _, acc, [] => [acc.reverse]
  | skip + 1, acc, c :: s => splitDocsFrom (c == '\n') skip acc s
  | 0, acc, c :: s =>
      match if bol then separatorLength (c :: s) else none with
      | some n => acc.reverse :: splitDocsFrom (c == '\n') (n - 1) [] s
      | none => splitDocsFrom (c == '\n') 0 (c :: acc) s

/-- `splitYAMLDocs`. -/
def splitYAMLDocs (data : Str) : List Str :=
  (splitDocsFrom true 0 [] data).filter fun doc => decide (trimSpace doc ≠ [])

/-! ## 3. Components and their secret references -/

/-- `Ref.Kind`. -/
inductive RefKind where
  | secretKeyRef
  | envRef
  deriving DecidableEq

/-- `SecretRef`; a kind that is not set is `none`. -/
structure SecretRef where
  kind : Option RefKind
  name : Str
  key : Str
  deriving DecidableEq

/-- `Component`, whole. A nil map is the empty one. -/
structure StoreComponent where
  name : Str
  type : StoreType
  version : Str
  metadata : Dict Str Str
  secretRefs : Dict Str SecretRef
  secretStore : Str
  path : Str
  deriving DecidableEq

/-- The type with this text. -/
def StoreType.ofText (s : Str) : StoreType :=
  if s = StoreType.redis.text then .redis
  else if s = StoreType.sqlite.text then .sqlite
  else if s = StoreType.postgresql.text then .postgresql
  else if s = StoreType.postgres.text then .postgres
  else if s = StoreType.mongodb.text then .mongodb
  else .other s

/-- `rawComponent`. -/
structure RawComponent where
  kind : Str
  name : Str
  type : Str
  version : Str
  metadata : List (Str × Str)

/-- `refEntry`. -/
structure RefEntry where
  name : Str
  envRef : Str
  secretName : Str
  secretKey : Str

/-- `refDoc`. -/
structure RefDoc where
  metadata : List RefEntry
  headers : List RefEntry
  secretStore : Str

/-- `yaml.Unmarshal` of a document into either type. -/
structure YamlReader where
  rawComponent : Str → Option RawComponent
  refDoc : Str → Option RefDoc

/-- The reference of an entry, if it is one. -/
def RefEntry.ref (m : RefEntry) : Option SecretRef :=
  if m.secretName ≠ [] then some ⟨some .secretKeyRef, m.secretName, m.secretKey⟩
  else if m.envRef ≠ [] then some ⟨some .envRef, m.envRef, []⟩
  else none

def addRef (refs : Dict Str SecretRef) (m : RefEntry) : Dict Str SecretRef :=
  match m.ref with
  | some r => refs.put m.name r
  | none => refs

def componentKind : Str := "Component".toList

def storeTypePrefix : Str := "state.".toList

section Detect

variable (rd : YamlReader)

/-- `ParseRefs`. -/
def parseRefs (doc : Str) : Str × Dict Str SecretRef :=
  match rd.refDoc doc with
  | none => ([], .empty)
  | some d => (d.secretStore, (d.metadata ++ d.headers).foldl addRef .empty)

/-- The inline values of a component: the properties that are no references. -/
def inlineMetadata (refs : Dict Str SecretRef) (metadata : List (Str × Str)) : Dict Str Str :=
  metadata.foldl (fun md m => if (refs.get m.1).isSome then md else md.put m.1 m.2) .empty

/-- The state store a document declares, in the file with this absolute path. -/
def docComponent (absPath doc : Str) : Option StoreComponent :=
  match rd.rawComponent doc with
  | none => none
  | some rc =>
      if rc.kind = componentKind ∧ Str.hasPrefix rc.type storeTypePrefix then
        let (storeName, refs) := parseRefs rd doc
        some {
          name := rc.name, type := .ofText rc.type, version := rc.version
          metadata := inlineMetadata refs rc.metadata, secretRefs := refs
          secretStore := storeName, path := absPath }
      else none

/-- The state stores of a file. -/
def fileComponents (absPath data : Str) : List StoreComponent :=
  (splitYAMLDocs data).filterMap (docComponent rd absPath)

variable (fs : FileSystem)

/-- One visited file: `out` and `seen`. -/
def detectStep (acc : List StoreComponent × List Str) (v : Str × Option Str) :
    List StoreComponent × List Str :=
  if isYaml v.1 then
    match v.2 with
    | none => acc
    | some data =>
        let absPath := Path.abs fs.cwd v.1
        if absPath ∈ acc.2 then acc
        else (acc.1 ++ fileComponents rd absPath data, absPath :: acc.2)
  else acc

/-- `Detect`. -/
def detect (paths : List Str) : List StoreComponent :=
  ((paths.flatMap fs.walk).foldl (detectStep rd fs) ([], [])).1

/-! ## 4. What `Detect` returns -/

/-- A YAML file at its absolute path, and what it holds. -/
structure IsComponentFile (a data : Str) : Prop where
  abs : Path.isAbs a = true
  clean : Path.clean a = a
  yaml : isYaml a = true
  entry : fs.entry (Path.segs a) = .file (some data)

variable {rd fs} {a data : Str}

theorem proper_of_isYaml {p : Str} (h : isYaml p = true) : Path.Proper (Path.lastElem p) := by
  unfold isYaml Path.extOf at h
  refine ⟨fun he => ?_, fun he => ?_, fun he => ?_, Path.slash_lastElem p⟩
  all_goals
    rw [he] at h
    revert h
    decide

/-- A file that is visited is a component file under its absolute path. -/
theorem isComponentFile_abs {p : Str} (hs : fs.stat p = .file (some data))
    (hy : isYaml p = true) : IsComponentFile fs (Path.abs fs.cwd p) data := by
  refine ⟨Path.isAbs_abs fs.cwd_abs p, Path.clean_abs fs.cwd_abs p, ?_,
    (FileSystem.ne_nil_of_stat hs (by simp)).2⟩
  have hlast := Path.lastElem_abs fs.cwd_abs (proper_of_isYaml hy)
  unfold isYaml Path.extOf at hy ⊢
  rw [hlast]
  exact hy

theorem IsComponentFile.abs_eq (h : IsComponentFile fs a data) (cwd : Str) :
    Path.abs cwd a = a := by
  unfold Path.abs
  rw [if_pos h.abs, h.clean]

theorem IsComponentFile.stat (h : IsComponentFile fs a data) : fs.stat a = .file (some data) := by
  have hne : a ≠ [] := fun he => by
    have habs := h.abs
    rw [he] at habs
    cases habs
  unfold FileSystem.stat FileSystem.place
  rw [if_neg hne, h.abs_eq, h.entry]

theorem IsComponentFile.data_eq {data' : Str} (h : IsComponentFile fs a data)
    (h' : IsComponentFile fs a data') : data = data' := by
  have he := h.entry
  rw [h'.entry] at he
  cases he
  rfl

/-- Nothing lies under a component file but itself. -/
theorem IsComponentFile.eq_of_prefix {b data' : Str} (h : IsComponentFile fs a data)
    (hb : IsComponentFile fs b data') (hp : Path.segs a <+: Path.segs b) : b = a := by
  obtain ⟨t, ht⟩ := hp
  cases t with
  | nil =>
      rw [List.append_nil] at ht
      exact Path.eq_of_segs hb.abs hb.clean h.abs h.clean ht.symm
  | cons n t =>
      have habsent := fs.leaf _ _ (n :: t) h.entry (by simp)
      rw [ht, hb.entry] at habsent
      cases habsent

theorem path_of_mem_fileComponents {c : StoreComponent} (h : c ∈ fileComponents rd a data) :
    c.path = a := by
  obtain ⟨doc, -, hdoc⟩ := List.mem_filterMap.mp h
  unfold docComponent at hdoc
  split at hdoc
  · cases hdoc
  · split at hdoc
    · cases hdoc
      rfl
    · cases hdoc

/-- What holds of `out` and `seen` all along: the files that were seen are component files, each
    of them with its components in place. -/
structure DetectInv (rd : YamlReader) (fs : FileSystem) (acc : List StoreComponent × List Str) :
    Prop where
  seen : ∀ a ∈ acc.2, ∃ data, IsComponentFile fs a data
  path : ∀ c ∈ acc.1, c.path ∈ acc.2
  group : ∀ a data, a ∈ acc.2 → IsComponentFile fs a data →
    acc.1.filter (fun c => decide (c.path = a)) = fileComponents rd a data

theorem DetectInv.step {acc : List StoreComponent × List Str} (h : DetectInv rd fs acc)
    {v : Str × Option Str} (hv : fs.stat v.1 = .file v.2) :
    DetectInv rd fs (detectStep rd fs acc v) := by
  obtain ⟨p, data?⟩ := v
  unfold detectStep
  split
  · rename_i hy
    cases data? with
    | none => exact h
    | some data =>
        have hfile := isComponentFile_abs hv hy
        show DetectInv rd fs (if _ then _ else _)
        split
        · exact h
        · rename_i hnew
          have hother : ∀ b, b ≠ Path.abs fs.cwd p →
              (fileComponents rd (Path.abs fs.cwd p) data).filter
                (fun c => decide (c.path = b)) = [] := by
            intro b hb
            refine List.filter_eq_nil_iff.mpr fun c hc => ?_
            rw [path_of_mem_fileComponents hc]
            simpa using Ne.symm hb
          refine ⟨fun b hb => ?_, fun c hc => ?_, fun b data' hb hbf => ?_⟩
          · rcases List.mem_cons.mp hb with rfl | hb
            · exact ⟨data, hfile⟩
            · exact h.seen b hb
          · rcases List.mem_append.mp hc with hc | hc
            · exact List.mem_cons_of_mem _ (h.path c hc)
            · exact path_of_mem_fileComponents hc ▸ List.mem_cons_self
          · rw [List.filter_append]
            rcases List.mem_cons.mp hb with rfl | hb
            · -- the new file: nothing of it was there before
              have hold : acc.1.filter (fun c => decide (c.path = Path.abs fs.cwd p)) = [] := by
                refine List.filter_eq_nil_iff.mpr fun c hc => ?_
                have hne : c.path ≠ Path.abs fs.cwd p := fun he => hnew (he ▸ h.path c hc)
                simpa using hne
              rw [hold, hbf.data_eq hfile, List.nil_append]
              refine List.filter_eq_self.mpr fun c hc => ?_
              simpa using path_of_mem_fileComponents hc
            · rw [h.group b data' hb hbf, hother b fun he => hnew (he ▸ hb), List.append_nil]
  · exact h

theorem DetectInv.foldl {acc : List StoreComponent × List Str} (h : DetectInv rd fs acc)
    {vs : List (Str × Option Str)} (hvs : ∀ v ∈ vs, fs.stat v.1 = .file v.2) :
    DetectInv rd fs (vs.foldl (detectStep rd fs) acc) := by
  induction vs generalizing acc with
  | nil => exact h
  | cons v vs ih =>
      obtain ⟨hv, hvs⟩ := List.forall_mem_cons.mp hvs
      exact ih (h.step hv) hvs

theorem detectInv_walk (paths : List Str) :
    DetectInv rd fs ((paths.flatMap fs.walk).foldl (detectStep rd fs) ([], [])) := by
  refine DetectInv.foldl ⟨by simp, by simp, by simp⟩ fun v hv => ?_
  obtain ⟨p, -, hp⟩ := List.mem_flatMap.mp hv
  exact FileSystem.stat_of_mem_walk hp

theorem subset_detectStep (acc : List StoreComponent × List Str) (v : Str × Option Str) :
    acc.2 ⊆ (detectStep rd fs acc v).2 := by
  unfold detectStep
  split
  · split
    · exact fun _ h => h
    · simp only
      split
      · exact fun _ h => h
      · exact List.subset_cons_self _ _
  · exact fun _ h => h

/-- A YAML file that is visited is seen. -/
theorem mem_seen {p : Str} {vs : List (Str × Option Str)} (hm : (p, some data) ∈ vs)
    (hy : isYaml p = true) (acc : List StoreComponent × List Str) :
    Path.abs fs.cwd p ∈ (vs.foldl (detectStep rd fs) acc).2 := by
  have hmono : ∀ (ws : List (Str × Option Str)) (acc : List StoreComponent × List Str),
      acc.2 ⊆ (ws.foldl (detectStep rd fs) acc).2 := by
    intro ws
    induction ws with
    | nil => exact fun _ _ h => h
    | cons w ws ih => exact fun acc => List.Subset.trans (subset_detectStep acc w) (ih _)
  induction vs generalizing acc with
  | nil => cases hm
  | cons v vs ih =>
      rcases List.mem_cons.mp hm with rfl | hm
      · refine hmono vs _ ?_
        simp only [detectStep, hy, if_true]
        split
        · assumption
        · exact List.mem_cons_self
      · exact ih hm _

/-- **Every component comes from a document of a component file, and has its path.** -/
theorem mem_detect {paths : List Str} {c : StoreComponent} (h : c ∈ detect rd fs paths) :
    ∃ data, IsComponentFile fs c.path data ∧
      (detect rd fs paths).filter (fun x => decide (x.path = c.path)) =
        fileComponents rd c.path data := by
  have hinv := @detectInv_walk rd fs paths
  obtain ⟨data, hfile⟩ := hinv.seen c.path (hinv.path c h)
  exact ⟨data, hfile, hinv.group c.path data (hinv.path c h) hfile⟩

/-- **A component file among the paths: its components stand there once, in their order.** -/
theorem filter_detect_of_mem {paths : List Str} (hfile : IsComponentFile fs a data)
    (h : a ∈ paths) :
    (detect rd fs paths).filter (fun x => decide (x.path = a)) = fileComponents rd a data := by
  have hvisit : (a, some data) ∈ paths.flatMap fs.walk := by
    refine List.mem_flatMap.mpr ⟨a, h, ?_⟩
    rw [FileSystem.walk_of_file hfile.stat]
    exact List.mem_singleton_self _
  have hseen := @mem_seen rd fs data a _ hvisit hfile.yaml ([], [])
  rw [hfile.abs_eq] at hseen
  exact (detectInv_walk paths).group a data hseen hfile

end Detect

end DevDashboard.StateStore
