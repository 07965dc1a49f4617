/-
  File:      DevDashboard/Resources/Service.lean
  Subject:   THE RESOURCES PAGE (`pkg/resources/resources.go`, `pkg/resources/secrets.go`: `List`,
             `Get`, `RevealSecret`).

  Resources are the documents of YAML files and what was read out of containers (`extras`). A
  component or an endpoint is shown with the outcome of its secret references, a secret store with
  the names of its keys. The YAML library, the hash of the ids and the comparison key of paths are
  parameters (`Files`), and `sort.Slice` is any sort (`SliceSort`): equal elements come in any
  order.

  * `list`, `get`, `revealSecret` -- the calls of the service;
  * `list_eq`, `get_eq` -- over backends that differ in the values of secrets only, `List` and
    `Get` answer the same.
-/
import DevDashboard.Secrets.Resolve
import Mathlib.Data.List.Sort

namespace DevDashboard.Resources

open Lib StateStore Secrets

/-! ## 1. Resources -/

inductive Kind where
  | component
  | configuration
  | resiliency
  | httpEndpoint
  deriving DecidableEq

/-- `kindFromString`. -/
def kindFromString (s : Str) : Option Kind :=
  if s = componentKind then some .component
  else if s = "Configuration".toList then some .configuration
  else if s = "Resiliency".toList then some .resiliency
  else if s = "HTTPEndpoint".toList then some .httpEndpoint
  else none

/-- `rawResource`. -/
structure RawResource where
  kind : Str
  name : Str
  scopes : List Str
  type : Str
  version : Str

structure SecretKeyRef where
  name : Str
  key : Str

/-- A header as it is read; `value` as `fmt.Sprint` prints it. -/
structure RawHeader where
  name : Str
  value : Option Str
  secretKeyRef : Option SecretKeyRef
  envRef : Str

/-- The `spec` of an endpoint as it is read; `clientTLS`: the map is there and not empty. -/
structure RawEndpoint where
  baseURL : Str
  headers : List RawHeader
  clientTLS : Bool

structure HTTPEndpointHeader where
  name : Str
  value : Str
  secretKeyRef : Option SecretKeyRef
  envRef : Str

structure HTTPEndpointSpec where
  baseURL : Str
  headers : List HTTPEndpointHeader
  clientTLS : Bool

/-- `SecretRefStatus`. -/
structure SecretRefStatus where
  field : Str
  kind : Option RefKind
  store : Str
  name : Str
  key : Str
  status : Str
  detail : Str

/-- `SecretStoreInfo`. -/
structure SecretStoreInfo where
  name : Str
  type : Str
  file : Str
  namePrefix : Str
  nestedSeparator : Str
  multiValued : Bool
  keys : List Str
  keysCapped : Bool
  initErr : Str
  usedBy : List Str

/-- `Resource`; the spec of a resiliency resource is passed on as it is read. -/
structure Resource (R : Type) where
  id : Str
  name : Str
  kind : Kind
  type : Str
  version : Str
  path : Str
  raw : Str := []
  scopes : List Str
  resiliency : Option R := none
  httpEndpoint : Option HTTPEndpointSpec := none
  secretRefs : List SecretRefStatus := []
  secretStore : Option SecretStoreInfo := none
  doc : Str

/-- `sort.Slice`: some order of the elements in which none stands before a lesser one. -/
structure SliceSort {α : Type} (less : α → α → Bool) where
  sort : List α → List α
  perm : ∀ l, (sort l).Perm l
  sorted : ∀ l, (sort l).Pairwise fun x y => less y x = false

/-- The order of `List`: by name, then by path. -/
def byNameThenPath {R : Type} (r s : Resource R) : Bool :=
  if r.name ≠ s.name then decide (r.name < s.name) else decide (r.path < s.path)

theorem byNameThenPath_eq_false {R : Type} {r s : Resource R} : byNameThenPath s r = false ↔
    r.name < s.name ∨ r.name = s.name ∧ r.path ≤ s.path := by
  unfold byNameThenPath
  split
  · rename_i hne
    rw [decide_eq_false_iff_not, not_lt]
    refine ⟨fun h => .inl (lt_of_le_of_ne h (Ne.symm hne)), fun h => ?_⟩
    rcases h with h | h
    · exact h.le
    · exact absurd h.1.symm hne
  · rename_i heq
    rw [decide_eq_false_iff_not, not_lt]
    have heq : s.name = r.name := not_not.mp heq
    refine ⟨fun h => .inr ⟨heq.symm, h⟩, fun h => ?_⟩
    rcases h with h | h
    · exact absurd heq.symm h.ne
    · exact h.2

/-- Sorting by insertion is one such sort. -/
def insertionSlice {R : Type} : SliceSort (@byNameThenPath R) where
  sort l := l.insertionSort fun r s => byNameThenPath s r = false
  perm l := List.perm_insertionSort _ l
  sorted l := by
    have htotal : Std.Total fun (r s : Resource R) => byNameThenPath s r = false := by
      refine ⟨fun r s => ?_⟩
      rw [byNameThenPath_eq_false, byNameThenPath_eq_false]
      rcases lt_trichotomy r.name s.name with h | h | h
      · exact .inl (.inl h)
      · exact (le_total r.path s.path).imp (fun hp => .inr ⟨h, hp⟩) fun hp => .inr ⟨h.symm, hp⟩
      · exact .inr (.inl h)
    have htrans : IsTrans (Resource R) fun r s => byNameThenPath s r = false := by
      refine ⟨fun r s t hrs hst => ?_⟩
      rw [byNameThenPath_eq_false] at hrs hst ⊢
      rcases hrs with hrs | ⟨hn, hp⟩
      · rcases hst with hst | ⟨hn', hp'⟩
        · exact .inl (hrs.trans hst)
        · exact .inl (hn' ▸ hrs)
      · rcases hst with hst | ⟨hn', hp'⟩
        · exact .inl (hn ▸ hst)
        · exact .inr ⟨hn.trans hn', hp.trans hp'⟩
    exact List.pairwise_insertionSort _ l

/-- What the service reads: the files, and the library functions it applies to them. -/
structure Files (R : Type) where
  site : Site
  yaml : YamlReader
  rawResource : Str → Option RawResource
  endpoint : Str → Option RawEndpoint
  resiliency : Str → Option R
  canonicalPath : Str → Str
  /-- the hex text of SHA-256 -/
  hash : Str → Str

/-- The service without its secrets: `secretPaths` are the paths the secrets service scans. -/
structure Service (R : Type) where
  files : Files R
  sorting : SliceSort (@byNameThenPath R)
  paths : List Str
  secretPaths : List Str
  extras : List (Resource R)

section Service

variable {R : Type} (svc : Service R)

/-! ## 2. Scanning -/

/-- `resourceID`. -/
def resourceID (name type path : Str) : Str :=
  (svc.files.hash (name ++ ['|'] ++ type ++ ['|'] ++ path)).take 12

/-- A header as it is shown: its value only if it is a plain one. -/
def header (h : RawHeader) : HTTPEndpointHeader where
  name := h.name
  value := if h.secretKeyRef.isNone ∧ h.envRef = [] then h.value.getD [] else []
  secretKeyRef := h.secretKeyRef
  envRef := h.envRef

/-- `parseHTTPEndpointSpec`. -/
def parseHTTPEndpointSpec (doc : Str) : Option HTTPEndpointSpec :=
  (svc.files.endpoint doc).map fun e => ⟨e.baseURL, e.headers.map header, e.clientTLS⟩

/-- `newResource`. -/
def newResource (rr : RawResource) (k : Kind) (path doc : Str) : Resource R where
  id := resourceID svc rr.name rr.type path
  name := rr.name
  kind := k
  type := rr.type
  version := rr.version
  path := path
  scopes := rr.scopes
  resiliency := if k = .resiliency then svc.files.resiliency doc else none
  httpEndpoint := if k = .httpEndpoint then parseHTTPEndpointSpec svc doc else none
  doc := doc

/-- The resource of a document, if it is of this kind. -/
def docResource (kind : Kind) (absPath doc : Str) : Option (Resource R) :=
  match svc.files.rawResource doc with
  | none => none
  | some rr =>
      if kindFromString rr.kind = some kind then some (newResource svc rr kind absPath doc) else none

/-- `scan`. -/
def scan (kind : Kind) : List (Resource R) :=
  svc.sorting.sort (collectYaml svc.files.site.fs svc.files.canonicalPath
    (fun absPath data => (splitYAMLDocs data).filterMap (docResource svc kind absPath)) svc.paths)

/-- `extraByKind`. -/
def extraByKind (kind : Kind) : List (Resource R) :=
  svc.extras.filter fun r => decide (r.kind = kind)

/-- The components, those of containers last. -/
def components : List (Resource R) := scan svc .component ++ extraByKind svc .component

/-! ## 3. Secrets -/

def notChecked : Str := "not-checked".toList

def notCheckedDetail : Str :=
  "read by daprd from its own environment, which the dashboard can't see".toList

/-- `containerStorePath`. -/
def containerStorePath (storeName : Str) : Option Str :=
  ((extraByKind svc .component).find? fun r =>
    decide (r.name = storeName) && isSecretStoreType r.type).map Resource.path

/-- The status and the detail that are shown of a result. -/
def shownStatus (storeName : Str) (res : Result) : Str × Str :=
  if res.fromEnv then (notChecked, notCheckedDetail)
  else if res.status = .storeNotFound then
    match containerStorePath svc storeName with
    | some p =>
        (Cmd.SecretStatus.storeUnreadable.text, "declared inside container ".toList ++ p ++
          "; its secrets are not readable from this host".toList)
    | none => (res.status.text, res.detail)
  else (res.status.text, res.detail)

/-- `secretRefsFor`. The references are kept in the order of their fields. -/
def secretRefsFor (secrets : Option Backend) (doc : Str) : List SecretRefStatus :=
  match secrets with
  | none => []
  | some b =>
      let (storeName, refs) := parseRefs svc.files.yaml doc
      refs.entries.map fun x =>
        let shown := shownStatus svc storeName
          (resolve svc.files.site b svc.secretPaths storeName x.2)
        ⟨x.1, x.2.kind, storeName, x.2.name, x.2.key, shown.1, shown.2⟩

/-- `usedBy`. -/
def usedBy (storeName : Str) : List Str :=
  let users := (components svc).filter fun r =>
    decide ((parseRefs svc.files.yaml r.doc).1 = storeName) &&
      !(parseRefs svc.files.yaml r.doc).2.entries.isEmpty
  (users.map Resource.name).dedup.mergeSort fun a b => decide (a ≤ b)

/-- `strconv.ParseBool` where its error is dropped. -/
def parseBool (s : Str) : Bool :=
  decide (s ∈ ["1".toList, "t".toList, "T".toList, "TRUE".toList, "true".toList, "True".toList])

/-- The separator of a file store, `:` unless another is set. -/
def nestedSeparatorOf (st : Store) : Str :=
  let sep := st.property "nestedSeparator".toList
  if sep = [] then [':'] else sep

/-- `secretStoreInfoFor`. -/
def secretStoreInfoFor (secrets : Option Backend) (r : Resource R) : Option SecretStoreInfo :=
  match secrets with
  | none => none
  | some b =>
      if !isSecretStoreType r.type then none
      else
        match (stores svc.files.site b svc.secretPaths).find? fun st => decide (st.name = r.name) with
        | none => none
        | some st =>
            if st.name = [] ∨ !st.supported then none
            else
              let listed := (keyNames svc.files.site b svc.secretPaths r.name).getD ([], false)
              some {
                name := st.name, type := st.type, file := st.file
                namePrefix := st.property prefixKey
                nestedSeparator := if st.type = typeFile then nestedSeparatorOf st else []
                multiValued :=
                  decide (st.type = typeFile) && parseBool (st.property "multiValued".toList)
                keys := listed.1, keysCapped := listed.2
                initErr := st.initErr, usedBy := usedBy svc r.name }

/-! ## 4. `List`, `Get`, `RevealSecret` -/

/-- `hasSecretRefs`. -/
def hasSecretRefs (kind : Kind) : Bool := decide (kind = .component ∨ kind = .httpEndpoint)

/-- What `List` adds to a resource. -/
def withRefs (secrets : Option Backend) (r : Resource R) : Resource R :=
  if hasSecretRefs r.kind then { r with secretRefs := secretRefsFor svc secrets r.doc } else r

/-- `List`. -/
def list (secrets : Option Backend) (kind : Kind) : List (Resource R) :=
  (svc.sorting.sort
    (scan svc kind ++ (extraByKind svc kind).map fun r => { r with raw := [] })).map
      (withRefs svc secrets)

/-- `enrich`. -/
def enrich (secrets : Option Backend) (r : Resource R) : Resource R :=
  let r' := withRefs svc secrets r
  if r.kind = .component then { r' with secretStore := secretStoreInfoFor svc secrets r' } else r'

/-- The resource of an id, else of a name; `true` if it comes from a file. -/
def locate (kind : Kind) (idOrName : Str) : Option (Bool × Resource R) :=
  let scanned := scan svc kind
  let extras := extraByKind svc kind
  let byID := fun (r : Resource R) => decide (r.id = idOrName)
  let byName := fun (r : Resource R) => decide (r.name = idOrName)
  ((scanned.find? byID).map (true, ·)).or <| ((extras.find? byID).map (false, ·)).or <|
    ((scanned.find? byName).map (true, ·)).or ((extras.find? byName).map (false, ·))

/-- The errors of the calls. -/
inductive ResourceError where
  | notFound
  | unreadable (path : Str)
  | noSecretValue
  deriving DecidableEq

/-- `os.ReadFile`. -/
def readFile (path : Str) : Option Str :=
  match svc.files.site.fs.stat path with
  | .file data => data
  | _ => none

/-- `Get`. -/
def get (secrets : Option Backend) (kind : Kind) (idOrName : Str) :
    Except ResourceError (Resource R) :=
  match locate svc kind idOrName with
  | none => .error .notFound
  | some (false, r) => .ok (enrich svc secrets r)
  | some (true, r) =>
      match readFile svc r.path with
      | none => .error (.unreadable r.path)
      | some data => .ok (enrich svc secrets { r with raw := data })

/-- `docFor`. -/
def docFor (idOrName : Str) : Option Str :=
  (locate svc .component idOrName).map fun x => x.2.doc

/-- `RevealSecret`. -/
def revealSecret (secrets : Option Backend) (idOrName field : Str) : Except ResourceError Str :=
  match secrets with
  | none => .error .noSecretValue
  | some b =>
      match docFor svc idOrName with
      | none => .error .notFound
      | some doc =>
          match (parseRefs svc.files.yaml doc).2.get field with
          | none => .error .noSecretValue
          | some ref =>
              let res := resolve svc.files.site b svc.secretPaths
                (parseRefs svc.files.yaml doc).1 ref
              if res.status ≠ .resolved ∨ res.fromEnv then .error .noSecretValue else .ok res.value

end Service

/-! ## 5. Two backends that differ in values -/

section Alike

variable {R : Type} {svc : Service R} {secrets secrets' : Option Backend}

/-- What is shown of a result is not its value. -/
theorem shownStatus_eq {r r' : Result} (h : r.Alike r') (storeName : Str) :
    shownStatus svc storeName r = shownStatus svc storeName r' := by
  unfold shownStatus
  rw [h.fromEnv, h.status, h.detail]

theorem secretRefsFor_eq (h : secrets.Rel SameButValues secrets') (doc : Str) :
    secretRefsFor svc secrets doc = secretRefsFor svc secrets' doc := by
  cases h with
  | none => rfl
  | some h =>
      refine List.map_congr_left fun x _ => ?_
      simp only [shownStatus_eq (resolve_alike h svc.secretPaths _ x.2)]

theorem secretStoreInfoFor_eq (h : secrets.Rel SameButValues secrets') (r : Resource R) :
    secretStoreInfoFor svc secrets r = secretStoreInfoFor svc secrets' r := by
  cases h with
  | none => rfl
  | some h =>
      simp only [secretStoreInfoFor]
      rw [stores_eq h, keyNames_eq h]

theorem withRefs_eq (h : secrets.Rel SameButValues secrets') (r : Resource R) :
    withRefs svc secrets r = withRefs svc secrets' r := by
  unfold withRefs
  rw [secretRefsFor_eq h]

theorem enrich_eq (h : secrets.Rel SameButValues secrets') (r : Resource R) :
    enrich svc secrets r = enrich svc secrets' r := by
  simp only [enrich, withRefs_eq h, secretStoreInfoFor_eq h]

/-- **`List` does not show the values of secrets.** -/
theorem list_eq (h : secrets.Rel SameButValues secrets') (kind : Kind) :
    list svc secrets kind = list svc secrets' kind := List.map_congr_left fun r _ => withRefs_eq h r

/-- **`Get` does not show the values of secrets.** -/
theorem get_eq (h : secrets.Rel SameButValues secrets') (kind : Kind) (idOrName : Str) :
    get svc secrets kind idOrName = get svc secrets' kind idOrName := by
  simp only [get, enrich_eq h]

end Alike

end DevDashboard.Resources
