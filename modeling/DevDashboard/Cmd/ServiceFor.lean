/-
  File:      DevDashboard/Cmd/ServiceFor.lean
  Subject:   WHAT THE RECONCILER HANDS OUT FOR A STORE (`cmd/reconciler.go`: `ServiceFor`,
             `sidecarEndpoints`, `baseServiceFor`; `pkg/workflow/composite.go`: `Get`).

  Reads go to the sidecar of an app that has one of its own, else to the store, in the namespace
  of the app's contract. A force delete goes to the store, in the namespace discovery reports.

  * `get_after` -- what a read finds after a force delete that reports success;
  * `removed_iff` -- when it finds nothing;
  * `survivors_of_same_ns` -- a read in the namespace of the delete finds nothing.
-/
import DevDashboard.Server.Purge
import DevDashboard.Workflow.Load

namespace DevDashboard.Cmd

open Lib StateStore Workflow Server
open Lib.Like (like Plain)

/-! ## 1. Sidecar endpoints -/

inductive Source where
  | standalone
  | aspire
  | testcontainers
  | compose
  deriving DecidableEq

/-- An entry of `discovery.Service.List`, as far as `sidecarEndpoints` reads it. -/
structure Discovered where
  appID : Str
  grpcPort : Nat
  source : Source
  sidecarReachable : Bool

structure SidecarEndpoint where
  appID : Str
  /-- the port of `127.0.0.1:<port>` -/
  port : Nat
  deriving DecidableEq

/-- The loop of `sidecarEndpoints` with the app-ids seen so far. -/
def endpointsFrom (includeAll : Bool) (seen : List Str) : List Discovered → List SidecarEndpoint
  | [] => []
  | app :: apps =>
      if app.grpcPort = 0 ∨ app.appID ∈ seen then endpointsFrom includeAll seen apps
      else if app.source = .testcontainers ∨
          (includeAll ∧ app.sidecarReachable ∧ app.source ≠ .aspire) then
        ⟨app.appID, app.grpcPort⟩ :: endpointsFrom includeAll (app.appID :: seen) apps
      else endpointsFrom includeAll seen apps

/-- `sidecarEndpoints`; `none` is a discovery that cannot list. -/
def sidecarEndpoints (apps : Option (List Discovered)) (includeAll : Bool) :
    List SidecarEndpoint :=
  match apps with
  | none => []
  | some apps => endpointsFrom includeAll [] apps

/-! ## 2. The composite service -/

/-- The store-backed service: one over a store (or none), or one whose store cannot be opened. -/
inductive Base where
  | store (ns : Str) (nsResolver : Str → Str)
  | noStore
  | unreachable (name conn : Str)

/-- `baseService.Get`, over the store as it answers now. -/
def Base.get (cd : Codec) (s : StoreReads) : Base → Str → Str → Except LoadError Execution
  | .store ns nsResolver => Service.get cd ⟨some s, ns, some nsResolver⟩
  | .noStore => fun _ _ => .error .noStore
  | .unreachable name conn => fun _ _ => .error (.storeUnreachable name conn)

/-- `composite`, with the endpoints of its sidecar source and what those sidecars answer. -/
structure Composite where
  base : Base
  endpoints : List SidecarEndpoint
  /-- `SidecarService.Get` at an endpoint -/
  sidecar : SidecarEndpoint → Str → Except LoadError Execution

/-- `endpointFor`. -/
def Composite.endpointFor (svc : Composite) (appID : Str) : Option SidecarEndpoint :=
  svc.endpoints.find? fun ep => ep.appID = appID

/-- `Owns`. -/
def Composite.owns (svc : Composite) (appID : Str) : Bool := (svc.endpointFor appID).isSome

/-- `composite.Get`. -/
def Composite.get (cd : Codec) (s : StoreReads) (svc : Composite) (appID instanceID : Str) :
    Except LoadError Execution :=
  match svc.endpointFor appID with
  | some ep => svc.sidecar ep instanceID
  | none => svc.base.get cd s appID instanceID

/-! ## 3. `ServiceFor` -/

/-- What a store id stands for: no elected store, one that cannot be opened, an open one. -/
inductive StoreState where
  | degraded
  | unreachable (name conn : Str)
  | opened

/-- What `ServiceFor` reads. -/
structure Reconciler where
  /-- `apps.List` -/
  list : Option (List Discovered)
  /-- `apps.Get` -/
  app : Str → Option AppInstance
  /-- the namespaces of the aspire contract -/
  appNS : Str → Str
  ns : Str
  /-- `resolveComponent` and the pool; `none` for an unknown id -/
  stores : Str → Option StoreState
  sidecar : SidecarEndpoint → Str → Except LoadError Execution

/-- The namespace of `workflow.New`. -/
def storeNS (rc : Reconciler) : Str := if rc.ns = [] then defaultNamespace else rc.ns

/-- `baseServiceFor`: the service, the remover, and whether a store is open. -/
def baseServiceFor (rc : Reconciler) (id : Str) : Option (Base × Remover × Bool) :=
  match rc.stores id with
  | none => none
  | some .degraded => some (.noStore, newRemover false rc.ns, false)
  | some (.unreachable name conn) => some (.unreachable name conn, newRemover false rc.ns, false)
  | some .opened => some (.store (storeNS rc) rc.appNS, newRemover true rc.ns, true)

/-- `ServiceFor`: the composite service and the remover of a store id. -/
def serviceFor (rc : Reconciler) (id : Str) : Option (Composite × Remover) :=
  match baseServiceFor rc id with
  | none => none
  | some (base, rem, storeUp) =>
      some (⟨base, sidecarEndpoints rc.list (id = [] && !storeUp), rc.sidecar⟩, rem)

/-- The target resolver that goes with a composite service. -/
def targets (cd : Codec) (rc : Reconciler) (s : StoreReads) (svc : Composite) :
    Str → Str → Except Str RemoveTarget :=
  resolve LoadError.text rc.app (svc.get cd s)

/-! ## 4. Reading after a force delete -/

/-- The namespace an app's reads go to. -/
def readNS (rc : Reconciler) (appID : Str) : Str :=
  if appID = [] ∨ rc.appNS appID = [] then storeNS rc else rc.appNS appID

theorem effectiveNS_eq (rc : Reconciler) (s : Option StoreReads) (appID : Str) :
    Service.effectiveNS ⟨s, storeNS rc, some rc.appNS⟩ appID = readNS rc appID := by
  unfold Service.effectiveNS readNS
  by_cases h : appID = []
  · simp [h]
  · by_cases h' : rc.appNS appID = [] <;> simp [h, h']

/-- The pattern of a force delete. -/
def deletePattern (rem : Remover) (t : RemoveTarget) : Str :=
  instanceKeyPattern (deleteNamespace rem t) t.appID t.instanceID

/-- A remover that has removed something by force has an open store behind it. -/
theorem opened_of_removed {rc : Reconciler} {id : Str} {svc : Composite} {rem : Remover}
    (hfor : serviceFor rc id = some (svc, rem)) (hrem : rem.hasStore = true) :
    svc.base = .store (storeNS rc) rc.appNS ∧ rem = newRemover true rc.ns ∧
      svc.endpoints = sidecarEndpoints rc.list false ∧ svc.sidecar = rc.sidecar := by
  unfold serviceFor baseServiceFor at hfor
  cases hst : rc.stores id with
  | none => simp [hst] at hfor
  | some st =>
      cases st with
      | degraded =>
          simp only [hst, Option.some.injEq, Prod.mk.injEq] at hfor
          obtain ⟨-, rfl⟩ := hfor
          cases hrem
      | unreachable name conn =>
          simp only [hst, Option.some.injEq, Prod.mk.injEq] at hfor
          obtain ⟨-, rfl⟩ := hfor
          cases hrem
      | opened =>
          simp only [hst, Option.some.injEq, Prod.mk.injEq] at hfor
          obtain ⟨rfl, rfl⟩ := hfor
          exact ⟨rfl, rfl, by simp, rfl⟩

theorem hasStore_of_ok {A : Type} {env : Env A} {r : Remover} {c : Content} {t : RemoveTarget}
    (h : (forceDelete env r c t).2 = none) : r.hasStore = true := by
  unfold forceDelete at h
  split at h
  · assumption
  · cases h

/-- The keys a read's scan would still find after a force delete. -/
def survivors (rc : Reconciler) (rem : Remover) (t : RemoveTarget) (c : Content) : List Str :=
  (c.keysLike (instanceKeyPattern (readNS rc t.appID) t.appID t.instanceID)).filter fun k =>
    !like (deletePattern rem t) k

section After

variable {A : Type} {cd : Codec} {env : Env A} {rem : Remover} {c : Content} {t : RemoveTarget}

/-- Reading keys the delete's pattern does not match. -/
theorem bulkGet_after (hok : (forceDelete env rem c t).2 = none) {ks : List Str}
    (h : ∀ k ∈ ks, like (deletePattern rem t) k = false) :
    (forceDelete env rem c t).1.bulkGet ks = c.bulkGet ks := by
  refine List.map_congr_left fun k hk => ?_
  rw [forceDelete_get_of_ok hok, if_neg]
  have := h k (List.mem_dedup.mp hk)
  rw [deletePattern] at this
  simp [this]

omit c in
/-- A force delete takes all the declared keys of an instance or none of them. -/
theorem like_declaredKeys {ns app id : Str} {n : Nat} {k : Str}
    (hk : k ∈ declaredKeys (instancePrefix ns app id) n) :
    like (deletePattern rem t) k = like (deletePattern rem t) (instancePrefix ns app id) := by
  rw [Bool.eq_iff_iff]
  rcases mem_declaredKeys.mp hk with ⟨i, -, rfl⟩ | rfl
  · exact like_instanceKeyPattern_suffix _ _ _ (bar_not_mem_historyKey i)
  · exact like_instanceKeyPattern_suffix _ _ _ (by decide)

/-- The scan after a force delete, and the last check of `Get`. -/
theorem scan_after {rc : Reconciler} {s' : StoreReads}
    (hok : (forceDelete env rem c t).2 = none) (hs' : Serves s' (forceDelete env rem c t).1) :
    loadByScan cd s' (readNS rc t.appID) t.appID t.instanceID >>= found = .error .notFound ↔
      survivors rc rem t c = [] ∨
        foundNothing (decodeInstance cd t.appID t.instanceID
          (instancePrefix (readNS rc t.appID) t.appID t.instanceID)
          (c.bulkGet (survivors rc rem t c))) = true := by
  have hkeys : (forceDelete env rem c t).1.keysLike
      (instanceKeyPattern (readNS rc t.appID) t.appID t.instanceID) = survivors rc rem t c :=
    forceDelete_keysLike_of_ok hok _
  rw [loadByScan_eq hs', hkeys, bulkGet_after hok fun k hk => by
    simpa using (List.mem_filter.mp hk).2]
  by_cases hl : survivors rc rem t c = []
  · simp [hl, bind, Except.bind]
  · simp only [hl, if_false, false_or, bind, Except.bind, found_eq_notFound]

end After

/-- What a store-backed read finds after a force delete that reports success, if it found
    something before: nothing exactly if the record is out of the way and so is everything the
    scan could find. -/
theorem get_after {A : Type} {cd : Codec} {rc : Reconciler} {env : Env A} {rem : Remover}
    {c : Content} {t : RemoveTarget} {s s' : StoreReads} (hs : Serves s c)
    (hok : (forceDelete env rem c t).2 = none) (hs' : Serves s' (forceDelete env rem c t).1)
    {ex : Execution}
    (hex : Service.get cd ⟨some s, storeNS rc, some rc.appNS⟩ t.appID t.instanceID = .ok ex) :
    Service.get cd ⟨some s', storeNS rc, some rc.appNS⟩ t.appID t.instanceID = .error .notFound ↔
      (like (deletePattern rem t) (instancePrefix (readNS rc t.appID) t.appID t.instanceID) = true ∨
        historyLength cd (c.get (metaKey (readNS rc t.appID) t.appID t.instanceID)) = none) ∧
      (survivors rc rem t c = [] ∨
        foundNothing (decodeInstance cd t.appID t.instanceID
          (instancePrefix (readNS rc t.appID) t.appID t.instanceID)
          (c.bulkGet (survivors rc rem t c))) = true) := by
  have hrecord := (forceDelete_get_of_ok hok
    (metaKey (readNS rc t.appID) t.appID t.instanceID)).trans
      (if_congr (like_instanceKeyPattern_suffix _ _ _ (by decide)) rfl rfl)
  rw [← scan_after hok hs']
  have hscan := @get_of_no_record cd s' _ hs' ⟨some s', storeNS rc, some rc.appNS⟩ rfl
    t.appID t.instanceID
  rw [effectiveNS_eq] at hscan
  by_cases hl : like (deletePattern rem t)
      (instancePrefix (readNS rc t.appID) t.appID t.instanceID) = true
  · replace hrecord := hrecord.trans (if_pos hl)
    rw [hscan (by rw [hrecord]; rfl), and_iff_right (.inl hl)]
  · replace hrecord := hrecord.trans (if_neg hl)
    cases hn : historyLength cd (c.get (metaKey (readNS rc t.appID) t.appID t.instanceID)) with
    | none => rw [hscan (by rw [hrecord]; exact hn), and_iff_right (.inr rfl)]
    | some n =>
        -- the record and the keys it declares are all still there
        have hkeys : (forceDelete env rem c t).1.bulkGet (declaredKeys
            (instancePrefix (readNS rc t.appID) t.appID t.instanceID) n) =
              c.bulkGet (declaredKeys
                (instancePrefix (readNS rc t.appID) t.appID t.instanceID) n) :=
          bulkGet_after hok fun k hk => by
            rw [like_declaredKeys hk]
            simpa using hl
        have hbefore := @get_of_record cd s _ hs ⟨some s, storeNS rc, some rc.appNS⟩ rfl
          t.appID t.instanceID n
        have hafter := @get_of_record cd s' _ hs' ⟨some s', storeNS rc, some rc.appNS⟩ rfl
          t.appID t.instanceID n
        rw [effectiveNS_eq] at hbefore hafter
        rw [hafter (by rw [hrecord]; exact hn), hkeys, ← hbefore hn, hex]
        simp [hl]

/-- **Removing really removes, when?** After a removal by force that reports success, a read
    through the same service finds nothing exactly if the app is not read from a sidecar, the
    delete's pattern covers the key of the metadata record the read goes to (or that record is
    not usable), and of the keys the read's scan matches none is left that holds anything. -/
theorem removed_iff {A : Type} (cd : Codec) (rc : Reconciler) (id : Str) (env : Env A)
    (force : Bool) {svc : Composite} {rem : Remover} (hfor : serviceFor rc id = some (svc, rem))
    {s s' : StoreReads} {c : Content} (hs : Serves s c) {app inst : Str} {t : RemoveTarget}
    (hres : targets cd rc s svc app inst = .ok t)
    (hmech : (remove env rem c t force).result.mechanism = some .force)
    (hok : (remove env rem c t force).result.ok = true)
    (hs' : Serves s' (remove env rem c t force).content) :
    svc.get cd s' app inst = .error .notFound ↔
      svc.owns app = false ∧
      (like (deletePattern rem t) (instancePrefix (readNS rc app) app inst) = true ∨
        historyLength cd (c.get (metaKey (readNS rc app) app inst)) = none) ∧
      (survivors rc rem t c = [] ∨
        foundNothing (decodeInstance cd app inst (instancePrefix (readNS rc app) app inst)
          (c.bulkGet (survivors rc rem t c))) = true) := by
  obtain ⟨hcontent, hres'⟩ := remove_of_force hmech
  rw [hok] at hres'
  rw [hcontent] at hs'
  have hdel : (forceDelete env rem c t).2 = none := Option.isNone_iff_eq_none.mp hres'.symm
  obtain ⟨rfl, rfl, -, ex, hex⟩ := resolve_ok hres
  obtain ⟨hbase, -, -, -⟩ := opened_of_removed hfor (hasStore_of_ok hdel)
  unfold Composite.get at hex ⊢
  cases hep : svc.endpointFor t.appID with
  | some ep =>
      -- the sidecar still answers as it did
      rw [hep] at hex
      have howns : svc.owns t.appID = true := by simp [Composite.owns, hep]
      simp only at hex ⊢
      simp [hex, howns]
  | none =>
      rw [hep] at hex
      have howns : svc.owns t.appID = false := by simp [Composite.owns, hep]
      rw [hbase] at hex ⊢
      rw [and_iff_right howns]
      exact get_after hs hdel hs' hex

/-- The delete's own scan pattern leaves nothing for a read in the same namespace. -/
theorem survivors_of_same_ns {rc : Reconciler} {rem : Remover} {t : RemoveTarget} {c : Content}
    (h : readNS rc t.appID = deleteNamespace rem t) : survivors rc rem t c = [] := by
  rw [survivors, deletePattern, h, List.filter_eq_nil_iff]
  intro k hk
  simp [(Content.mem_keysLike.mp hk).2]

/-- An execution with an event in it is found. -/
theorem found_of_history {ex : Execution} (h : ex.history.length = 1) : found ex = .ok ex := by
  have hne : ex.history ≠ [] := fun hn => by simp [hn] at h
  simp [found, foundNothing, hne]

/-- An open store, no sidecars, no contract. -/
def plainReconciler : Reconciler where
  list := some []
  app _ := none
  appNS _ := []
  ns := []
  stores _ := some .opened
  sidecar _ _ := .error .notFound

/-- The instance `42` of the app `shop`, in a store of its own. -/
def shopContent : Content :=
  oneEntry (instancePrefix defaultNamespace "shop".toList "42".toList) lengthOne
    orchestratorStartedBytes [] List.nodup_nil (by simp)

theorem removed_iff_shop :
    ∃ (svc : Composite) (rem : Remover) (t : RemoveTarget) (env : Env Unit),
      serviceFor plainReconciler [] = some (svc, rem) ∧
      targets tinyCodec plainReconciler (storeOf shopContent) svc "shop".toList "42".toList =
        .ok t ∧
      svc.get tinyCodec (storeOf (remove env rem shopContent t true).content)
        "shop".toList "42".toList = .error .notFound := by
  have hn : historyLength tinyCodec (shopContent.get (metaKey defaultNamespace
      "shop".toList "42".toList)) = some 1 := (declared_oneEntry (by decide)).length
  have hget := @get_of_record tinyCodec _ _ (serves_storeOf shopContent)
    ⟨some (storeOf shopContent), defaultNamespace, some fun _ => []⟩ rfl
    "shop".toList "42".toList 1 hn
  have hlen : (decodeInstance tinyCodec "shop".toList "42".toList
      (instancePrefix defaultNamespace "shop".toList "42".toList)
      (shopContent.bulkGet (declaredKeys
        (instancePrefix defaultNamespace "shop".toList "42".toList) 1))).history.length = 1 :=
    length_history_record (by decide) rfl
  have hfound := hget.trans (found_of_history hlen)
  have hres : targets tinyCodec plainReconciler (storeOf shopContent)
      ⟨.store defaultNamespace fun _ => [], [], fun _ _ => .error .notFound⟩
        "shop".toList "42".toList =
      .ok { appID := "shop".toList, instanceID := "42".toList, status := .pending } := by
    unfold targets resolve Composite.get
    simp only [Composite.endpointFor, List.find?_nil, Base.get, hfound]
    rfl
  let env : Env Unit := ⟨fun _ => none, id, fun _ => .error [], none, fun _ => .ok⟩
  have hready := removed_iff tinyCodec plainReconciler [] env true rfl (serves_storeOf shopContent)
    hres rfl rfl (serves_storeOf _)
  exact ⟨_, _, _, env, rfl, hres, hready.mpr ⟨rfl, .inl (by decide), .inl (by decide)⟩⟩

/-- What the sidecar of a testcontainers app answers. -/
def sidecarExecution : Execution where
  summary := { appID := "shop".toList, instanceID := "42".toList, status := .running }
  history := []

/-- A testcontainers app beside an open, empty store. -/
def containerReconciler : Reconciler where
  list := some [⟨"shop".toList, 50001, .testcontainers, true⟩]
  app _ := none
  appNS _ := []
  ns := []
  stores _ := some .opened
  sidecar _ _ := .ok sidecarExecution

/-- The removal reports success, and the workflow is still there. -/
theorem removed_still_there :
    ∃ (svc : Composite) (rem : Remover) (t : RemoveTarget) (env : Env Unit),
      serviceFor containerReconciler [] = some (svc, rem) ∧
      targets tinyCodec containerReconciler (storeOf .empty) svc "shop".toList "42".toList =
        .ok t ∧
      (remove env rem .empty t true).result.mechanism = some .force ∧
      (remove env rem .empty t true).result.ok = true ∧
      svc.get tinyCodec (storeOf (remove env rem .empty t true).content)
        "shop".toList "42".toList = .ok sidecarExecution :=
  ⟨_, _, _, ⟨fun _ => none, id, fun _ => .error [], none, fun _ => .ok⟩, rfl, rfl, rfl, rfl, rfl⟩

end DevDashboard.Cmd
