/-
  File:      DevDashboard/Secrets/Resolve.lean
  Subject:   RESOLVING SECRET REFERENCES (`pkg/secrets`: `DetectStores`, `Stores`, `Resolve`,
             `KeyNames`, `resolveEnvRef`).

  The stores of components-contrib and the environment are a parameter (`Backend`), and so is what
  the two runs of a comparison share (`Site`): the YAML library, the component files, and two
  functions on texts. A store that was opened is reused for two seconds if its file has not
  changed, so it answers as a new one would; the cache is left out.

  * `SameButValues` -- two backends that differ in the values of secrets only;
  * `resolve_alike` -- what `Resolve` gives besides the value is the same over both;
  * `keyNames_eq`, `stores_eq` -- so are the names of keys, and the stores.
-/
import DevDashboard.Cmd.Components

namespace DevDashboard.Secrets

open Lib StateStore
open Cmd (SecretStatus SecretResult)

/-! ## 1. Stores -/

/-- `secrets.Result`. -/
structure Result extends SecretResult where
  fromEnv : Bool

/-- A store of components-contrib after its `Init`; `none` is an error. -/
structure ContribStore where
  getSecret : Str → Option (Dict Str Str)
  bulkGetSecret : Option (Dict Str (Dict Str Str))

/-- The local secret backends: the environment, and `Init` of either store with its properties,
    which may fail with a text. -/
structure Backend where
  env : Str → Option Str
  initFile : Dict Str Str → Except Str ContribStore
  initEnv : Dict Str Str → Except Str ContribStore

/-- What does not depend on the backends: the reader of `rawComponent`, the component files,
    `strings.ToUpper`, and `%q` of `fmt`. -/
structure Site where
  rawComponent : Str → Option RawComponent
  fs : FileSystem
  toUpper : Str → Str
  quote : Str → Str

def typeFile : Str := "secretstores.local.file".toList

def typeEnv : Str := "secretstores.local.env".toList

/-- `IsSecretStoreType`. -/
def isSecretStoreType (type : Str) : Bool := Str.hasPrefix type "secretstores.".toList

/-- `secrets.Store`. -/
structure Store where
  name : Str
  type : Str
  path : Str
  properties : Dict Str Str
  file : Str := []
  initErr : Str := []

/-- `Supported`. -/
def Store.supported (st : Store) : Bool := decide (st.type = typeFile ∨ st.type = typeEnv)

/-- A property, empty if it is missing. -/
def Store.property (st : Store) (name : Str) : Str := (st.properties.get name).getD []

def prefixKey : Str := "prefix".toList

def secretsFileKey : Str := "secretsFile".toList

/-- The files of a walk with the extension of YAML, each once: what `f` makes of a file, given its
    absolute path and what it holds. `canon` tells whether two paths are one file. -/
def collectYaml {α : Type} (fs : FileSystem) (canon : Str → Str) (f : Str → Str → List α)
    (paths : List Str) : List α :=
  ((paths.flatMap fs.walk).foldl (fun (acc : List α × List Str) v =>
    if isYaml v.1 then
      match v.2 with
      | none => acc
      | some data =>
          let absPath := Path.abs fs.cwd v.1
          if canon absPath ∈ acc.2 then acc
          else (acc.1 ++ f absPath data, canon absPath :: acc.2)
    else acc) ([], [])).1

section Service

variable (site : Site)

/-- The secret store that a document declares. -/
def docStore (absPath doc : Str) : Option Store :=
  match site.rawComponent doc with
  | none => none
  | some rc =>
      if rc.kind = componentKind ∧ isSecretStoreType rc.type then
        some { name := rc.name, type := rc.type, path := absPath
               properties := rc.metadata.foldl (fun m x => m.put x.1 x.2) .empty }
      else none

/-- `DetectStores`. -/
def detectStores (paths : List Str) : List Store :=
  collectYaml site.fs id (fun absPath data => (splitYAMLDocs data).filterMap (docStore site absPath))
    paths

/-- `filepath.Dir`. -/
def dirOf (p : Str) : Str := Path.clean (p.reverse.dropWhile (· ≠ '/')).reverse

/-- Does `os.Stat` find something? -/
def fileExists (p : Str) : Bool :=
  match site.fs.stat p with
  | .absent => false
  | _ => true

/-- `resolveSecretsFile`. -/
def resolveSecretsFile (st : Store) : Str :=
  let raw := st.property secretsFileKey
  if raw = [] ∨ Path.isAbs raw then raw
  else
    let first := Path.join (dirOf st.path) raw
    let second := Path.join (dirOf (dirOf st.path)) raw
    if fileExists site first then first else if fileExists site second then second else first

variable (b : Backend)

/-- `open`: the file, and what `Init` leaves. -/
def openStore (st : Store) : Str × Except Str ContribStore :=
  let file := resolveSecretsFile site st
  if st.type = typeFile then (file, b.initFile (st.properties.put secretsFileKey file))
  else (file, b.initEnv st.properties)

/-- `e.initErr`. -/
def initErrOf : Except Str ContribStore → Str
  | .error text => text
  | .ok _ => []

/-- `Stores`. -/
def stores (paths : List Str) : List Store :=
  (detectStores site paths).map fun st =>
    if st.supported then
      { st with file := (openStore site b st).1, initErr := initErrOf (openStore site b st).2 }
    else st

/-- `find`. -/
def find (paths : List Str) (name : Str) : Option Store :=
  (detectStores site paths).find? fun st => decide (st.name = name)

/-! ## 2. The environment -/

def appAPIToken : Str := "APP_API_TOKEN".toList

def daprPrefix : Str := "DAPR_".toList

def daprEnvKeys : Str := "DAPR_ENV_KEYS".toList

/-- `contribEnvKeyDenied`. -/
def contribEnvKeyDenied (key : Str) : Bool :=
  decide (site.toUpper key = appAPIToken) || Str.hasPrefix (site.toUpper key) daprPrefix

/-- `EnvVarAllowed`. -/
def envVarAllowed (key : Str) : Bool :=
  let upper := site.toUpper key
  if upper = [] ∨ contribEnvKeyDenied site key ∨ ' ' ∈ upper then false
  else
    let allowlist := (b.env daprEnvKeys).getD []
    decide (allowlist = []) || decide (upper ∈ allowlist.splitOn ' ')

/-- `envDetail`. -/
def envDetail (name : Str) : Str :=
  "env var ".toList ++ name ++ " in the dashboard's environment".toList

/-- `lookupEnv`. -/
def lookupEnv (name : Str) : Result :=
  match b.env name with
  | none =>
      ⟨⟨.keyNotFound, [], "env var ".toList ++ name ++
        " is not set in the dashboard's environment".toList⟩, true⟩
  | some val =>
      if val = [] then ⟨⟨.emptyValue, [], envDetail name⟩, true⟩
      else ⟨⟨.resolved, val, envDetail name⟩, true⟩

/-- `resolveEnvRef`. -/
def resolveEnvRef (ref : SecretRef) : Result :=
  if envVarAllowed site b ref.name then lookupEnv b ref.name
  else ⟨⟨.forbidden, [], "env var ".toList ++ ref.name ++
    " is on Dapr's denylist (DAPR_*, APP_API_TOKEN, names with spaces)".toList⟩, false⟩

/-! ## 3. `Resolve` and `KeyNames` -/

/-- `EffectiveKey`. -/
def effectiveKey (ref : SecretRef) : Str := if ref.key = [] then ref.name else ref.key

/-- `detailFor`. -/
def detailFor (st : Store) (file : Str) (ref : SecretRef) : Str :=
  if st.type = typeFile then "secrets file ".toList ++ file
  else if st.type = typeEnv then envDetail (st.property prefixKey ++ ref.name)
  else []

/-- `Resolve` in a local store. -/
def resolveIn (st : Store) (ref : SecretRef) : Result :=
  let fullName := st.property prefixKey ++ ref.name
  if st.type = typeEnv ∧ contribEnvKeyDenied site fullName then
    ⟨⟨.forbidden, [], "env var ".toList ++ fullName ++
      " is on components-contrib's local.env store denylist (DAPR_*, APP_API_TOKEN)".toList⟩, false⟩
  else
    let (file, opened) := openStore site b st
    let detail := detailFor st file ref
    match opened with
    | .error text => ⟨⟨.storeUnreadable, [], detail ++ ": ".toList ++ text⟩, false⟩
    | .ok store =>
        match (store.getSecret ref.name).bind fun data => data.get (effectiveKey ref) with
        | none => ⟨⟨.keyNotFound, [], detail⟩, false⟩
        | some val =>
            if val ≠ [] then ⟨⟨.resolved, val, detail⟩, decide (st.type = typeEnv)⟩
            else if st.type = typeEnv then lookupEnv b fullName
            else ⟨⟨.emptyValue, [], detail⟩, false⟩

/-- `Resolve`. -/
def resolve (paths : List Str) (storeName : Str) (ref : SecretRef) : Result :=
  if ref.kind = some .envRef then resolveEnvRef site b ref
  else if storeName = [] then
    ⟨⟨.storeNotSpecified, [],
      "the component declares no auth.secretStore, and standalone Dapr has no default".toList⟩, false⟩
  else
    match find site paths storeName with
    | none =>
        ⟨⟨.storeNotFound, [], "no secret store named ".toList ++ site.quote storeName ++
          " was found in the scanned resource paths".toList⟩, false⟩
    | some st =>
        if st.supported then resolveIn site b st ref
        else ⟨⟨.storeUnsupported, [], st.type ++
          " is not a local secret store; the dashboard does not read it".toList⟩, false⟩

/-- `MaxKeyNames`. -/
def maxKeyNames : Nat := 200

/-- At most `MaxKeyNames` of the sorted names, and whether some were left out. -/
def cutNames (names : List Str) : List Str × Bool :=
  if maxKeyNames < names.length then (names.take maxKeyNames, true) else (names, false)

/-- `KeyNames`, and whether the list was cut; `none` is an error. -/
def keyNames (paths : List Str) (storeName : Str) : Option (List Str × Bool) :=
  match find site paths storeName with
  | none => none
  | some st =>
      if !st.supported then none
      else if st.type = typeEnv ∧ st.property prefixKey = [] then some ([], false)
      else
        match (openStore site b st).2 with
        | .error _ => none
        | .ok store =>
            store.bulkGetSecret.map fun data => cutNames (data.entries.map Prod.fst)

end Service

/-! ## 4. Two backends that differ in values -/

/-- Both are missing, or both are there, and both or neither is empty. -/
def SameShape (v v' : Option Str) : Prop := v.map List.isEmpty = v'.map List.isEmpty

/-- Two stores with the same errors, the same names and the same keys, of which the same are
    empty. -/
structure ContribStore.Alike (s s' : ContribStore) : Prop where
  get : ∀ name key, SameShape ((s.getSecret name).bind fun d => d.get key)
    ((s'.getSecret name).bind fun d => d.get key)
  bulk : s.bulkGetSecret.map (fun d => d.entries.map Prod.fst) =
    s'.bulkGetSecret.map fun d => d.entries.map Prod.fst

/-- `Init` fails on both with the same text, or on neither. -/
inductive InitAlike : Except Str ContribStore → Except Str ContribStore → Prop where
  | error (text : Str) : InitAlike (.error text) (.error text)
  | ok {s s' : ContribStore} (h : s.Alike s') : InitAlike (.ok s) (.ok s')

/-- **Two backends that differ in the values of secrets only.** `DAPR_ENV_KEYS`, the list of the
    variables that a component may name, is no secret. -/
structure SameButValues (b b' : Backend) : Prop where
  env : ∀ name, SameShape (b.env name) (b'.env name)
  allowlist : b.env daprEnvKeys = b'.env daprEnvKeys
  initFile : ∀ props, InitAlike (b.initFile props) (b'.initFile props)
  initEnv : ∀ props, InitAlike (b.initEnv props) (b'.initEnv props)

/-- Results that only the value tells apart. -/
structure Result.Alike (r r' : Result) : Prop where
  status : r.status = r'.status
  detail : r.detail = r'.detail
  fromEnv : r.fromEnv = r'.fromEnv

theorem Result.Alike.refl (r : Result) : r.Alike r := ⟨rfl, rfl, rfl⟩

theorem SameShape.cases {v v' : Option Str} (h : SameShape v v') :
    v = none ∧ v' = none ∨ v = some [] ∧ v' = some [] ∨
      ∃ x x', v = some x ∧ v' = some x' ∧ x ≠ [] ∧ x' ≠ [] := by
  unfold SameShape at h
  cases v with
  | none =>
      cases v' with
      | none => exact .inl ⟨rfl, rfl⟩
      | some x' => cases h
  | some x =>
      cases v' with
      | none => cases h
      | some x' =>
          have he : x.isEmpty = x'.isEmpty := Option.some.inj h
          cases x with
          | nil =>
              cases x' with
              | nil => exact .inr (.inl ⟨rfl, rfl⟩)
              | cons c t => cases he
          | cons c t =>
              cases x' with
              | nil => cases he
              | cons c' t' =>
                  exact .inr (.inr ⟨_, _, rfl, rfl, List.cons_ne_nil _ _, List.cons_ne_nil _ _⟩)

section Alike

variable {site : Site} {b b' : Backend}

theorem lookupEnv_alike (h : SameButValues b b') (name : Str) :
    (lookupEnv b name).Alike (lookupEnv b' name) := by
  unfold lookupEnv
  rcases (h.env name).cases with ⟨h1, h2⟩ | ⟨h1, h2⟩ | ⟨x, x', h1, h2, hx, hx'⟩
  · rw [h1, h2]
    exact .refl _
  · rw [h1, h2]
    exact .refl _
  · rw [h1, h2]
    simp only [if_neg hx, if_neg hx']
    exact ⟨rfl, rfl, rfl⟩

theorem envVarAllowed_eq (h : SameButValues b b') (key : Str) :
    envVarAllowed site b key = envVarAllowed site b' key := by
  unfold envVarAllowed
  rw [h.allowlist]

theorem openStore_alike (h : SameButValues b b') (st : Store) :
    (openStore site b st).1 = (openStore site b' st).1 ∧
      InitAlike (openStore site b st).2 (openStore site b' st).2 := by
  unfold openStore
  simp only
  split
  · exact ⟨rfl, h.initFile _⟩
  · exact ⟨rfl, h.initEnv _⟩

theorem resolveIn_alike (h : SameButValues b b') (st : Store) (ref : SecretRef) :
    (resolveIn site b st ref).Alike (resolveIn site b' st ref) := by
  unfold resolveIn
  simp only
  split
  · exact .refl _
  · obtain ⟨hfile, hinit⟩ := openStore_alike h st
    rw [hfile]
    generalize (openStore site b st).2 = o, (openStore site b' st).2 = o' at hinit
    cases hinit with
    | error text => exact .refl _
    | ok hs =>
        rename_i s s'
        rcases (hs.get ref.name (effectiveKey ref)).cases with ⟨h1, h2⟩ | ⟨h1, h2⟩ |
          ⟨x, x', h1, h2, hx, hx'⟩
        · simp only [h1, h2]
          exact .refl _
        · simp only [h1, h2]
          split
          · exact absurd rfl ‹_›
          · split
            · exact lookupEnv_alike h _
            · exact .refl _
        · simp only [h1, h2, if_pos hx, if_pos hx']
          exact ⟨rfl, rfl, rfl⟩

/-- **What `Resolve` gives besides the value does not depend on the values.** -/
theorem resolve_alike (h : SameButValues b b') (paths : List Str) (storeName : Str)
    (ref : SecretRef) :
    (resolve site b paths storeName ref).Alike (resolve site b' paths storeName ref) := by
  unfold resolve
  split
  · unfold resolveEnvRef
    rw [envVarAllowed_eq h]
    split
    · exact lookupEnv_alike h _
    · exact .refl _
  · split
    · exact .refl _
    · split
      · exact .refl _
      · split
        · exact resolveIn_alike h _ ref
        · exact .refl _

theorem stores_eq (h : SameButValues b b') (paths : List Str) :
    stores site b paths = stores site b' paths := by
  unfold stores
  refine List.map_congr_left fun st _ => ?_
  obtain ⟨hfile, hinit⟩ := openStore_alike h st
  rw [hfile]
  generalize (openStore site b st).2 = o, (openStore site b' st).2 = o' at hinit
  cases hinit <;> rfl

theorem keyNames_eq (h : SameButValues b b') (paths : List Str) (storeName : Str) :
    keyNames site b paths storeName = keyNames site b' paths storeName := by
  unfold keyNames
  split
  · rfl
  · split
    · rfl
    · split
      · rfl
      · obtain ⟨-, hinit⟩ := openStore_alike h ‹Store›
        generalize (openStore site b _).2 = o, (openStore site b' _).2 = o' at hinit
        cases hinit with
        | error text => rfl
        | ok hs =>
            rename_i s s'
            -- the answer is a function of the list of the names
            have hlist := congrArg (Option.map cutNames) hs.bulk
            rw [Option.map_map, Option.map_map] at hlist
            exact hlist

end Alike

end DevDashboard.Secrets
