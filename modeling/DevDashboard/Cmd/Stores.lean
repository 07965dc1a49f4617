/-
  File:      DevDashboard/Cmd/Stores.lean
  Subject:   WHAT IS SHOWN OF THE STORES (`cmd/reconciler.go`: `Stores`, `identity`,
             `resolveComponent` behind `ServiceFor` and `StateFor`).

  Resolved secrets are merged into the metadata of components, from which the page of the stores,
  the identities of connections and the messages about unreachable stores are made. What is made
  reads some of the properties only (`readFields`).

  * `StoreComponent.Alike` -- components that agree in what is read of them;
  * `resolved_alike`, `translate_alike` -- resolving and translating keep it so;
  * `componentForEntry_alike`, `elect_alike` -- so do the way back from an entry, and the election.
-/
import DevDashboard.Cmd.Compose
import DevDashboard.Cmd.Election
import DevDashboard.Cmd.ServiceFor
import DevDashboard.Server.Records

namespace DevDashboard.Cmd

open Lib StateStore Workflow ConnRegistry

/-! ## 1. What is shown of the stores -/

/-- `server.StoreInfo`. -/
structure StoreInfo where
  id : Str
  name : Str
  type : StoreType
  source : EntrySource
  path : Str
  active : Bool
  connection : Str
  updatedAt : Time
  secretIssue : Str

/-- The order of `sortStores`: the active store first, then the newest, then by name. -/
def storeLess (x y : StoreInfo) : Bool :=
  if x.active ≠ y.active then x.active
  else if x.updatedAt ≠ y.updatedAt then decide (y.updatedAt < x.updatedAt)
  else decide (x.name < y.name)

/-- `sortStores`, a stable sort. -/
def sortStores (l : List StoreInfo) : List StoreInfo := l.mergeSort fun x y => !storeLess y x

section Shown

variable (W : World) (out : Outside) (entries : List ConnEntry) (active : Option StoreComponent)

/-- The identity of the elected store, as it is compared with the ones of the entries. -/
def activeID : Str :=
  match active with
  | none => []
  | some s => identity W.parseURL (some (connOf (translate (W.sources out) s)))

/-- The paths that `Stores` detects. -/
def autoPaths : List Str :=
  ((entries.filter fun e => decide (e.source ≠ .manual) && !e.dismissed).map ConnEntry.path).dedup

/-- The detection that the entries share. -/
def sharedDetection : Option (List StoreComponent) :=
  if autoPaths entries = [] then none else some (detect W.reader W.fs (autoPaths entries))

/-- What is shown of an entry. -/
def storeInfo (e : ConnEntry) : StoreInfo :=
  let found := componentForEntry (W.sources out) e (sharedDetection W entries)
  let id := identity W.parseURL (some (connOf found.1))
  { id := e.id, name := e.name, type := e.type, source := e.source, path := e.path
    active := decide (id = activeID W out active) && decide (activeID W out active ≠ [])
    connection := connInfo W.parseURL (connOf found.1)
    updatedAt := e.updatedAt, secretIssue := found.2 }

/-- `Stores`. -/
def stores : List StoreInfo :=
  sortStores ((entries.filter fun e => !e.dismissed).map (storeInfo W out entries active))

/-- The identity of the connection behind an id, of the elected store if it is empty. -/
def identityFor (id : Str) : Option Str :=
  (resolveComponent (W.sources out) entries active id).map fun c =>
    identity W.parseURL (c.map connOf)

/-- What `baseServiceFor` and `StateFor` find behind an id; `opens`: can the pool open it? -/
def storeState (opens : StoreComponent → Bool) (id : Str) : Option StoreState :=
  (resolveComponent (W.sources out) entries active id).map fun c =>
    match c with
    | none => .degraded
    | some c =>
        if opens c then .opened else .unreachable c.name (connInfo W.parseURL (connOf c))

end Shown

/-- What the service of `ServiceFor` answers if its store cannot be opened. -/
def serviceText (rc : Reconciler) (id : Str) : Option Str :=
  (serviceFor rc id).bind fun x =>
    match x.1.base with
    | .unreachable name conn => some (LoadError.text (.storeUnreachable name conn))
    | _ => none

/-- What the service of `StateFor` answers if its store cannot be opened. -/
def stateText (rc : Reconciler) (id : Str) : Option Str :=
  (rc.stores id).bind fun st =>
    match st with
    | .unreachable name conn => some (Server.stateErrorText (.storeUnreachable name conn))
    | _ => none

/-! ## 2. Components alike -/

/-- The properties that `ConnInfo` reads of a type. -/
def infoFields : StoreType → List Str
  | .redis => [metaKeyText .redisHost]
  | .sqlite | .postgresql | .postgres => [metaKeyText .connectionString]
  | .mongodb => [metaKeyText .host, metaKeyText .server, metaKeyText .databaseName]
  | .other _ => []

/-- The properties that `ConnInfo` or the election reads. -/
def readFields (type : StoreType) : List Str := actorKey :: infoFields type

/-- Components that agree in what is read of them. -/
structure StoreComponent.Alike (c c' : StoreComponent) : Prop where
  name : c.name = c'.name
  type : c.type = c'.type
  path : c.path = c'.path
  read : ∀ k ∈ readFields c.type, c.metadata.get k = c'.metadata.get k

theorem StoreComponent.Alike.refl (c : StoreComponent) : StoreComponent.Alike c c :=
  ⟨rfl, rfl, rfl, fun _ _ => rfl⟩

/-- `ConnInfo` reads what `infoFields` says. -/
theorem connInfo_congr {parseURL : Str → Option ParsedURL} {x y : Component}
    (ht : x.type = y.type)
    (h : ∀ k, metaKeyText k ∈ infoFields x.type → x.metadata k = y.metadata k) :
    connInfo parseURL x = connInfo parseURL y := by
  obtain ⟨xn, t, m⟩ := x
  obtain ⟨yn, t', m'⟩ := y
  cases ht
  cases t with
  | redis => exact congrArg trimSpace (h .redisHost List.mem_cons_self)
  | sqlite => exact congrArg trimSpace (h .connectionString List.mem_cons_self)
  | postgresql => exact congrArg (pgConnInfo parseURL) (h .connectionString List.mem_cons_self)
  | postgres => exact congrArg (pgConnInfo parseURL) (h .connectionString List.mem_cons_self)
  | mongodb =>
      have h1 : m .host = m' .host := h .host List.mem_cons_self
      have h2 : m .server = m' .server := h .server (List.mem_cons_of_mem _ List.mem_cons_self)
      have h3 : m .databaseName = m' .databaseName :=
        h .databaseName (List.mem_cons_of_mem _ (List.mem_cons_of_mem _ List.mem_cons_self))
      simp only [connInfo, mongoHostField, h1, h2, h3]
  | other raw => rfl

section Read

variable {c c' : StoreComponent}

/-- **What is shown of a connection.** -/
theorem StoreComponent.Alike.connInfo_eq (h : StoreComponent.Alike c c')
    (parseURL : Str → Option ParsedURL) :
    connInfo parseURL (connOf c) = connInfo parseURL (connOf c') :=
  connInfo_congr h.type fun _ hk =>
    congrArg (Option.getD · []) (h.read _ (List.mem_cons_of_mem _ hk))

theorem StoreComponent.Alike.identity_eq (h : StoreComponent.Alike c c')
    (parseURL : Str → Option ParsedURL) :
    identity parseURL (some (connOf c)) = identity parseURL (some (connOf c')) := by
  have hname : (connOf c).name = (connOf c').name := h.name
  have htype : (connOf c).type = (connOf c').type := h.type
  simp only [identity, hname, htype, h.connInfo_eq]

theorem StoreComponent.Alike.isActor_eq (h : StoreComponent.Alike c c') :
    isActor c = isActor c' := by
  unfold isActor
  rw [h.read _ List.mem_cons_self]

end Read

/-! ## 3. Resolving and translating -/

/-- Secrets services whose results only the values tell apart. -/
def ServicesAlike (svc svc' : Secrets) : Prop := ∀ storeName kind name key,
  (svc storeName kind name key).status = (svc' storeName kind name key).status ∧
    (svc storeName kind name key).detail = (svc' storeName kind name key).detail

section Resolve

variable {svc svc' : Secrets}

/-- The issue does not name values. -/
theorem resolveFields_issue (h : ServicesAlike svc svc') (secretStore : Str)
    (l : List (Str × SecretRef)) {md md' : Dict Str Str} {issue : Str} :
    (l.foldl (resolveField svc secretStore) (md, issue)).2 =
      (l.foldl (resolveField svc' secretStore) (md', issue)).2 := by
  induction l generalizing md md' issue with
  | nil => rfl
  | cons x l ih =>
      obtain ⟨hstatus, hdetail⟩ := h secretStore (x.2.kind.getD .secretKeyRef) x.2.name x.2.key
      rw [List.foldl_cons, List.foldl_cons]
      unfold resolveField
      simp only
      rw [hstatus, unresolvedIssue, hdetail, hstatus]
      split
      · exact ih
      · split
        · exact ih
        · exact ih

/-- Only the properties that are references change. -/
theorem resolveFields_get (secretStore : Str) {l : List (Str × SecretRef)} {k : Str}
    (hk : ∀ x ∈ l, x.1 ≠ k) (acc : Dict Str Str × Str) :
    (l.foldl (resolveField svc secretStore) acc).1.get k = acc.1.get k := by
  induction l generalizing acc with
  | nil => rfl
  | cons x l ih =>
      obtain ⟨hx, hl⟩ := List.forall_mem_cons.mp hk
      rw [List.foldl_cons, ih hl]
      unfold resolveField
      simp only
      split
      · exact Dict.get_put_of_ne _ _ (Ne.symm hx)
      · split <;> rfl

end Resolve

/-- No reference is on a property that is read. -/
def RefsUnread (c : StoreComponent) : Prop := ∀ x ∈ c.secretRefs.entries, x.1 ∉ readFields c.type

/-- A component with its secrets filled in. -/
def withSecrets (svc : Option Secrets) (c : StoreComponent) : StoreComponent :=
  { c with metadata := (resolveComponentSecrets svc c).1 }

theorem withSecrets_get {svc : Option Secrets} {c : StoreComponent} (hc : RefsUnread c) {k : Str}
    (hk : k ∈ readFields c.type) : (withSecrets svc c).metadata.get k = c.metadata.get k := by
  cases svc with
  | none => rfl
  | some svc => exact resolveFields_get c.secretStore (fun x hx he => hc x hx (he ▸ hk)) _

/-- **Resolving the secrets of a component.** -/
theorem resolved_alike {svc svc' : Option Secrets} {c : StoreComponent} (hc : RefsUnread c) :
    StoreComponent.Alike (withSecrets svc c) (withSecrets svc' c) :=
  ⟨rfl, rfl, rfl, fun _ hk => (withSecrets_get hc hk).trans (withSecrets_get hc hk).symm⟩

theorem issue_eq {svc svc' : Option Secrets} (h : svc.Rel ServicesAlike svc')
    (c : StoreComponent) :
    (resolveComponentSecrets svc c).2 = (resolveComponentSecrets svc' c).2 := by
  cases h with
  | none => rfl
  | some h => exact resolveFields_issue h c.secretStore c.secretRefs.entries

/-- What is outside in two runs: secrets services alike, the same compose projects, and the same
    orders of the ranges. -/
structure Outside.Alike (out out' : Outside) : Prop where
  svc : out.secretsSvc.Rel ServicesAlike out'.secretsSvc
  translated : ∃ parse cwd env rg, out.translated = translateIn parse cwd env rg ∧
    out'.translated = translateIn parse cwd env rg

theorem translateIn_get {parse : Str → Option NetURL} {cwd : Str} {env : ComposeEnv} {rg : Ranges}
    {c c' : StoreComponent} (h : StoreComponent.Alike c c') {k : Str} (hk : k ∈ readFields c.type) :
    (translateIn parse cwd env rg c).get k = (translateIn parse cwd env rg c').get k := by
  unfold translateIn
  rw [← h.path, ← h.type]
  split
  · exact h.read k hk
  · by_cases ha : addressKey c.type = some k
    · rw [translate_get ha, translate_get ha, h.read k hk]
    · rw [translate_get_of_ne ha, translate_get_of_ne ha, h.read k hk]

section Components

variable {W : World} {out out' : Outside}

/-- **Translating components alike.** -/
theorem translate_alike (hout : out.Alike out') {c c' : StoreComponent}
    (h : StoreComponent.Alike c c') :
    StoreComponent.Alike (translate (W.sources out) c) (translate (W.sources out') c') := by
  obtain ⟨parse, cwd, env, rg, ht, ht'⟩ := hout.translated
  unfold translate
  rw [← h.path]
  split
  · exact h
  · refine ⟨h.name, h.type, rfl, fun k hk => ?_⟩
    show (out.translated c).get k = (out'.translated c').get k
    rw [ht, ht']
    exact translateIn_get h hk

/-- No detected component has a reference on a property that is read. -/
def Unread (W : World) : Prop := ∀ paths, ∀ c ∈ detect W.reader W.fs paths, RefsUnread c

/-- The component of an entry whose file is missing. -/
def bareComponent (e : ConnEntry) : StoreComponent where
  name := e.name
  type := e.type
  version := []
  metadata := .empty
  secretRefs := .empty
  secretStore := []
  path := e.path

/-- `componentForEntry` of an auto entry; which component it takes does not depend on what is
    outside. -/
theorem componentForEntry_auto {e : ConnEntry} (hs : e.source ≠ .manual) (out₀ : Outside)
    (det : Option (List StoreComponent)) :
    componentForEntry (W.sources out) e det =
      match (det.getD (detect W.reader W.fs [e.path])).find? (isEntryOf (W.sources out₀) e) with
      | some c => (translate (W.sources out) (withSecrets out.secretsSvc c),
          (resolveComponentSecrets out.secretsSvc c).2)
      | none => (bareComponent e, []) := by
  unfold componentForEntry
  exact if_neg hs

/-- **The component of an entry, and the issue with its secrets.** -/
theorem componentForEntry_alike (hout : out.Alike out') (hW : Unread W) (e : ConnEntry)
    {det : Option (List StoreComponent)}
    (hdet : det = none ∨ ∃ paths, det = some (detect W.reader W.fs paths)) :
    StoreComponent.Alike (componentForEntry (W.sources out) e det).1
        (componentForEntry (W.sources out') e det).1 ∧
      (componentForEntry (W.sources out) e det).2 =
        (componentForEntry (W.sources out') e det).2 := by
  obtain ⟨paths, hpaths⟩ : ∃ paths,
      det.getD (detect W.reader W.fs [e.path]) = detect W.reader W.fs paths := by
    rcases hdet with rfl | ⟨paths, rfl⟩
    · exact ⟨_, rfl⟩
    · exact ⟨paths, rfl⟩
  by_cases hs : e.source = .manual
  · unfold componentForEntry
    rw [if_pos hs, if_pos hs]
    exact ⟨@translate_alike W _ _ hout _ _ (.refl (manualComponent e)), rfl⟩
  · rw [componentForEntry_auto hs out, componentForEntry_auto hs out]
    split
    · rename_i c hc
      have hmem : c ∈ detect W.reader W.fs paths := hpaths ▸ List.mem_of_find?_eq_some hc
      exact ⟨translate_alike hout (resolved_alike (hW paths c hmem)), issue_eq hout.svc c⟩
    · exact ⟨.refl _, rfl⟩

theorem componentFor_alike (hout : out.Alike out') (hW : Unread W) (entries : List ConnEntry)
    (id : Str) :
    (componentFor (W.sources out) entries id).Rel StoreComponent.Alike
      (componentFor (W.sources out') entries id) := by
  unfold componentFor
  cases entries.find? fun e => decide (e.id = id) with
  | none => exact .none
  | some e => exact .some (componentForEntry_alike hout hW e (.inl rfl)).1

/-- **The component behind an id.** -/
theorem resolveComponent_alike (hout : out.Alike out') (hW : Unread W) (entries : List ConnEntry)
    {active active' : Option StoreComponent}
    (hactive : active.Rel StoreComponent.Alike active') (id : Str) :
    (resolveComponent (W.sources out) entries active id).Rel (Option.Rel StoreComponent.Alike)
      (resolveComponent (W.sources out') entries active' id) := by
  unfold resolveComponent
  split
  · cases hactive with
    | none => exact .some .none
    | some h => exact .some (.some (translate_alike hout h))
  · have hfor := componentFor_alike hout hW entries id
    unfold resolveEntry
    generalize componentFor (W.sources out) entries id = o,
      componentFor (W.sources out') entries id = o' at hfor
    cases hfor with
    | none => exact .none
    | some hc => exact .some (.some (translate_alike hout hc))

end Components

/-! ## 4. The election -/

theorem find_alike {p p' : StoreComponent → Bool}
    (hp : ∀ c c', StoreComponent.Alike c c' → p c = p' c') {l l' : List StoreComponent}
    (h : List.Forall₂ StoreComponent.Alike l l') :
    (l.find? p).Rel StoreComponent.Alike (l'.find? p') := by
  induction h with
  | nil => exact .none
  | @cons c c' l l' hc hl ih =>
      rw [List.find?_cons, List.find?_cons, ← hp c c' hc]
      cases p c with
      | true => exact .some hc
      | false => exact ih

section Election

variable {loaded appPaths : List Str}

theorem isAppProvided_eq {c c' : StoreComponent} (h : StoreComponent.Alike c c') :
    isAppProvided loaded appPaths c = isAppProvided loaded appPaths c' := by
  unfold isAppProvided
  rw [h.name, h.path]

theorem precedence_eq {test : StoreComponent → Bool} (ht : test ∈ precedence loaded appPaths)
    (c c' : StoreComponent) (h : StoreComponent.Alike c c') : test c = test c' := by
  simp only [precedence, List.mem_cons, List.not_mem_nil, or_false] at ht
  rcases ht with rfl | rfl | rfl | rfl | rfl | rfl
  · simp only [isAppProvided_eq h, h.isActor_eq]
  · exact isAppProvided_eq h
  · simp only [h.name, h.isActor_eq]
  · simp only [h.name]
  · exact h.isActor_eq
  · rfl

theorem findSome_alike {tests : List (StoreComponent → Bool)}
    (htests : ∀ test ∈ tests, ∀ c c', StoreComponent.Alike c c' → test c = test c')
    {l l' : List StoreComponent} (h : List.Forall₂ StoreComponent.Alike l l') :
    (tests.findSome? fun test => l.find? test).Rel StoreComponent.Alike
      (tests.findSome? fun test => l'.find? test) := by
  induction tests with
  | nil => exact .none
  | cons test tests ih =>
      obtain ⟨ht, hts⟩ := List.forall_mem_cons.mp htests
      have hfind := find_alike ht h
      rw [List.findSome?_cons, List.findSome?_cons]
      generalize l.find? test = o, l'.find? test = o' at hfind
      cases hfind with
      | none => exact ih hts
      | some hc => exact .some hc

/-- **Components alike elect stores alike.** -/
theorem elect_alike {l l' : List StoreComponent} (h : List.Forall₂ StoreComponent.Alike l l') :
    (elect loaded appPaths l).Rel StoreComponent.Alike (elect loaded appPaths l') :=
  findSome_alike (fun _ ht => precedence_eq ht) h

theorem provided_eq {l l' : List StoreComponent} (h : List.Forall₂ StoreComponent.Alike l l') :
    (l.filter fun c => decide (c.path ≠ []) && isAppProvided loaded appPaths c).map
        StoreComponent.path =
      (l'.filter fun c => decide (c.path ≠ []) && isAppProvided loaded appPaths c).map
        StoreComponent.path := by
  induction h with
  | nil => rfl
  | @cons c c' l l' hc hl ih =>
      rw [List.filter_cons, List.filter_cons, isAppProvided_eq hc, hc.path]
      split
      · rw [List.map_cons, List.map_cons, ih, hc.path]
      · exact ih

end Election

end DevDashboard.Cmd
