/-
  File:      DevDashboard/Discovery/Scan.lean
  Subject:   THE CONTAINER SCANS (`pkg/discovery/scan_compose.go`,
             `pkg/discovery/scan_testcontainers.go`, `pkg/discovery/merge.go`, `ScanResult.Key`).

  A compose sidecar is keyed by the app container it is paired with, else by its own; a sidecar of
  Testcontainers by its own. Pairing goes through a table with one container per project and
  service.

  * `keys_scanOnce`, `keys_testcontainersScan` -- the containers the results are keyed by;
  * `keys_unique_iff` -- when the keys of the merged scans are distinct, and `Get` under a listed
    key gives the listed instance.
-/
import DevDashboard.Discovery.Containers
import DevDashboard.Discovery.Instance

namespace DevDashboard.Discovery

open Lib
open Cmd (Source)

/-! ## 1. Results -/

/-- `ScanResult`, without what only the scans outside containers fill in. -/
structure ScanResult where
  appID : Str
  httpPort : Int
  grpcPort : Int
  appPort : Int
  created : Str
  command : Str
  appProtocol : Str
  source : Source
  composeProject : Str := []
  composeService : Str := []
  daprdContainerID : Str
  daprdContainerName : Str
  appContainerID : Str := []
  appContainerName : Str := []
  appImage : Str := []
  appRuntime : Str := []
  sidecarReachable : Bool
  testcontainersSession : Str := []
  resourcePaths : List Str := []
  configPath : Str := []
  appStatus : RunStatus := .unknown
  daprdStatus : RunStatus
  appStartedAt : Str := []
  daprdStartedAt : Str

/-- `ScanResult.Key`. -/
def ScanResult.key (r : ScanResult) : Str :=
  if r.source = .compose ∧ r.appContainerName ≠ [] then r.appContainerName
  else if r.source = .compose ∧ r.daprdContainerName ≠ [] then r.daprdContainerName
  else if r.source = .testcontainers ∧ r.daprdContainerName ≠ [] then r.daprdContainerName
  else r.appID

/-- `composeStatus`. -/
def composeStatus (running : Bool) : RunStatus := if running then .running else .stopped

/-- The results of both container scans begin alike. -/
def sidecarResult (source : Source) (c : Container) (a : DaprdArgs) : ScanResult where
  appID := a.appID
  httpPort := c.hostPort a.httpPort
  grpcPort := c.hostPort a.grpcPort
  appPort := a.appPort
  created := c.startedAt
  command := [' '].intercalate c.argv
  appProtocol := a.appProtocol
  source := source
  daprdContainerID := c.id
  daprdContainerName := c.name
  sidecarReachable := decide (c.hostPort a.httpPort ≠ 0)
  daprdStatus := composeStatus c.running
  daprdStartedAt := if c.running then c.startedAt else []

/-! ## 2. The compose scan -/

/-- The key of the table of app containers. -/
def projSvc (project service : Str) : Str := project ++ '/' :: service

/-- The table of app containers: of several in one project and service the last one stays. -/
def byProjSvc (containers : List Container) : Dict Str Container :=
  containers.foldl (fun m c => m.put (projSvc c.project c.service) c) .empty

/-- The app container of a sidecar: in its project, of the service that `-app-channel-address`
    names, else the app-id. -/
def pairedApp (containers : List Container) (c : Container) (a : DaprdArgs) : Option Container :=
  (byProjSvc containers).get
    (projSvc c.project (if a.appChannelAddress = [] then a.appID else a.appChannelAddress))

/-- What a scan reads besides the containers: in which order it goes through a mount table, and the
    language of an app container. -/
structure ScanEnv where
  ranged : Dict Str Str → List (Str × Str)
  composeAppRuntime : Container → Str

/-- One result of the compose scan. -/
def composeResult (scan : ScanEnv) (containers : List Container) (c : Container) (a : DaprdArgs) :
    ScanResult :=
  let host := fun p => if p = [] then none else translateMountPath (scan.ranged c.mounts) p
  let r := { sidecarResult .compose c a with
    composeProject := c.project
    composeService := c.service
    resourcePaths := (host a.resourcesPath).toList
    configPath := (host a.configPath).getD [] }
  match pairedApp containers c a with
  | none => r
  | some app =>
      { r with
        appContainerID := app.id
        appContainerName := app.name
        appImage := app.image
        appRuntime := scan.composeAppRuntime app
        appStatus := composeStatus app.running
        appStartedAt := if app.running then app.startedAt else [] }

/-- `parseComposeContainers`: the ones of a project. -/
def composeContainers (all : List Container) : List Container :=
  all.filter fun c => decide (c.project ≠ [])

/-- `ComposeSource.scanOnce`, its results. -/
def scanOnce (scan : ScanEnv) (all : List Container) : List ScanResult :=
  (composeContainers all).filterMap fun c =>
    (sidecarArgs c).map (composeResult scan (composeContainers all) c)

/-! ## 3. The scan of Testcontainers, and both merged -/

/-- One result of the scan of Testcontainers. -/
def testcontainersResult (c : Container) (a : DaprdArgs) : ScanResult :=
  { sidecarResult .testcontainers c a with
    testcontainersSession := textOf c.labels labelTestcontainersSessionID
    resourcePaths := if a.resourcesPath = [] then [] else [c.name ++ ':' :: a.resourcesPath]
    configPath := if a.configPath = [] then [] else c.name ++ ':' :: a.configPath }

/-- `TestcontainersSource.scanOnce`. -/
def testcontainersScan (all : List Container) : List ScanResult :=
  (all.filter Container.testcontainers).filterMap fun c =>
    (sidecarArgs c).map (testcontainersResult c)

/-- `dedupAspireWins`. -/
def dedupAspireWins (results : List ScanResult) : List ScanResult :=
  let aspireKeys := (results.filter fun r => decide (r.source = .aspire)).map ScanResult.key
  if aspireKeys = [] then results
  else results.filter fun r => decide (r.source = .aspire ∨ r.key ∉ aspireKeys)

/-- `Merge`; a scan that fails is `none`, and the merged one fails if all do. -/
def merge (scans : List (Option (List ScanResult))) : Option (List ScanResult) :=
  if scans ≠ [] ∧ scans.all Option.isNone = true then none
  else some (dedupAspireWins (scans.flatMap fun s => s.getD []))

/-! ## 4. Enriched results -/

/-- `Metadata`, as far as an instance in containers shows it. -/
structure SidecarMetadata where
  runtimeVersion : Str
  appPID : Nat
  placement : Str
  actors : List Str
  subscriptions : List Str
  components : List Str
  resiliencies : List Str
  httpEndpoints : List Str
  enabledFeatures : List Str

/-- What `enrich` asks for: whether the app port is open, the sidecar's health and metadata, the
    process that listens on the app port with its start, and the texts for times. -/
structure Probe where
  portOpen : Bool
  health : Health
  metadata : Option SidecarMetadata
  listener : Option (Nat × Option Str)
  age : Str
  created : Str

theorem ScanResult.key_of_host {r : ScanResult} (h : inContainer r.source = false) :
    r.key = r.appID := by
  have hne : r.source ≠ .compose ∧ r.source ≠ .testcontainers := by
    constructor <;> intro hs <;> rw [hs] at h <;> cases h
  simp [key, hne.1, hne.2]

/-- `enrich`, on a result of a container scan. -/
def enrich (probe : ScanResult → Probe) (r : ScanResult) : Instance :=
  let p := probe r
  let probed := r.source = .testcontainers ∧ r.appPort ≠ 0
  let appStatus := if probed then (if p.portOpen then .running else .stopped) else r.appStatus
  let listener := if probed ∧ appStatus = .running then p.listener else none
  let bare : Instance := {
    appID := r.appID
    instanceKey := r.key
    source := r.source
    sidecarReachable := r.sidecarReachable
    appStatus := appStatus
    daprdStatus := r.daprdStatus
    appStartedAt := if r.appStatus = .stopped then [] else r.appStartedAt
    daprdStartedAt := if r.daprdStatus = .stopped then [] else r.daprdStartedAt
    appContainerID := r.appContainerID
    daprdContainerID := r.daprdContainerID
    age := p.age
    created := p.created
    key_host := ScanResult.key_of_host
    pid_container := fun _ => rfl
    orphan_stopped := fun ho => by cases ho }
  if !r.sidecarReachable then bare
  else
    match p.metadata with
    | none => { bare with health := p.health }
    | some md =>
        { bare with
          health := p.health
          metadataOK := true
          appPID := if r.source = .compose then md.appPID else (listener.map Prod.fst).getD 0
          appStartedAt := (listener.bind Prod.snd).getD bare.appStartedAt
          runtimeVersion := md.runtimeVersion
          placement := md.placement
          actors := md.actors
          subscriptions := md.subscriptions
          components := md.components
          resiliencies := md.resiliencies
          httpEndpoints := md.httpEndpoints
          enabledFeatures := md.enabledFeatures }

theorem key_enrich (probe : ScanResult → Probe) (r : ScanResult) :
    (enrich probe r).instanceKey = r.key := by
  unfold enrich
  simp only
  split
  · rfl
  · split <;> rfl

/-! ## 5. What the results are keyed by -/

theorem mem_of_get_byProjSvc {containers : List Container} {k : Str} {c : Container}
    (h : (byProjSvc containers).get k = some c) : c ∈ containers := by
  have hfold : ∀ (l : List Container) (m : Dict Str Container),
      (l.foldl (fun m c => m.put (projSvc c.project c.service) c) m).get k = some c →
        c ∈ l ∨ m.get k = some c := by
    intro l
    induction l with
    | nil => exact fun m hm => .inr hm
    | cons d l ih =>
        intro m hm
        rcases ih _ hm with hc | hm
        · exact .inl (List.mem_cons_of_mem d hc)
        · by_cases hk : k = projSvc d.project d.service
          · rw [hk, Dict.get_put_self] at hm
            exact .inl (Option.some.inj hm ▸ List.mem_cons_self)
          · rw [Dict.get_put_of_ne _ _ hk] at hm
            exact .inr hm
  exact (hfold containers .empty h).resolve_right (by simp)

/-- The app container a compose sidecar is paired with. -/
def paired (all : List Container) (c : Container) : Option Container :=
  (sidecarArgs c).bind (pairedApp (composeContainers all) c)

/-- The container whose name is the key of a compose sidecar. -/
def keyContainer (all : List Container) (c : Container) : Container := (paired all c).getD c

/-- The sidecars of the compose scan. -/
def composeSidecars (all : List Container) : List Container :=
  (composeContainers all).filter fun c => (sidecarArgs c).isSome

/-- The sidecars of the scan of Testcontainers. -/
def testSidecars (all : List Container) : List Container :=
  (all.filter Container.testcontainers).filter fun c => (sidecarArgs c).isSome

theorem key_composeResult (scan : ScanEnv) (all : List Container) {c : Container} {a : DaprdArgs}
    (h : sidecarArgs c = some a) :
    (composeResult scan (composeContainers all) c a).key = (keyContainer all c).name := by
  unfold composeResult keyContainer paired
  rw [h, Option.bind_some]
  cases pairedApp (composeContainers all) c a with
  | none => simp [ScanResult.key, sidecarResult, c.named]
  | some app => simp [ScanResult.key, sidecarResult, app.named]

theorem key_testcontainersResult (c : Container) (a : DaprdArgs) :
    (testcontainersResult c a).key = c.name := by
  simp [ScanResult.key, testcontainersResult, sidecarResult, c.named]

/-- The keys of results that are made of the sidecars of a list. -/
theorem keys_filterMap {f : Container → DaprdArgs → ScanResult} {k : Container → Str}
    (h : ∀ c a, sidecarArgs c = some a → (f c a).key = k c) (l : List Container) :
    (l.filterMap fun c => (sidecarArgs c).map (f c)).map ScanResult.key =
      (l.filter fun c => (sidecarArgs c).isSome).map k := by
  induction l with
  | nil => rfl
  | cons c l ih =>
      cases ha : sidecarArgs c with
      | none => simpa [ha] using ih
      | some a => simpa [ha, h c a ha] using ih

theorem keys_scanOnce (scan : ScanEnv) (all : List Container) :
    (scanOnce scan all).map ScanResult.key =
      (composeSidecars all).map fun c => (keyContainer all c).name :=
  @keys_filterMap (composeResult scan (composeContainers all)) (fun c => (keyContainer all c).name)
    (fun _ _ ha => key_composeResult scan all ha) _

theorem keys_testcontainersScan (all : List Container) :
    (testcontainersScan all).map ScanResult.key = (testSidecars all).map Container.name :=
  keys_filterMap (fun c a _ => key_testcontainersResult c a) _

theorem source_composeResult (scan : ScanEnv) (containers : List Container) (c : Container)
    (a : DaprdArgs) : (composeResult scan containers c a).source = .compose := by
  unfold composeResult
  split <;> rfl

theorem dedupAspireWins_of_none {results : List ScanResult}
    (h : ∀ r ∈ results, r.source ≠ .aspire) : dedupAspireWins results = results := by
  have hnone : (results.filter fun r => decide (r.source = .aspire)) = [] := by
    refine List.filter_eq_nil_iff.mpr fun r hr => ?_
    simp [h r hr]
  simp [dedupAspireWins, hnone]

/-- Both scans merged are one after the other: neither has results of Aspire. -/
theorem merge_scans (scan : ScanEnv) (all : List Container) :
    merge [some (scanOnce scan all), some (testcontainersScan all)] =
      some (scanOnce scan all ++ testcontainersScan all) := by
  have hsource : ∀ r ∈ scanOnce scan all ++ testcontainersScan all, r.source ≠ .aspire := by
    intro r hr
    rcases List.mem_append.mp hr with hr | hr
    · obtain ⟨c, -, hc⟩ := List.mem_filterMap.mp hr
      obtain ⟨a, -, rfl⟩ := Option.map_eq_some_iff.mp hc
      rw [source_composeResult]
      exact fun h => by cases h
    · obtain ⟨c, -, hc⟩ := List.mem_filterMap.mp hr
      obtain ⟨a, -, rfl⟩ := Option.map_eq_some_iff.mp hc
      exact fun h => by cases h
  simp [merge, dedupAspireWins_of_none hsource]

/-! ## 6. Distinct keys -/

/-- **When the scans keep sidecars apart**: no app container is paired twice; a sidecar that is
    paired as an app has an app container of its own, and is none of Testcontainers; and a sidecar
    of both scans is paired. -/
structure PairedApart (all : List Container) : Prop where
  once : ∀ c ∈ composeSidecars all, ∀ d ∈ composeSidecars all, ∀ app,
    paired all c = some app → paired all d = some app → c = d
  unpaired : ∀ c ∈ composeSidecars all, ∀ d ∈ composeSidecars all,
    paired all c = some d → paired all d ≠ none
  apart : ∀ c ∈ composeSidecars all, ∀ d ∈ testSidecars all, paired all c ≠ some d
  labelled : ∀ c ∈ composeSidecars all, c ∈ testSidecars all → paired all c ≠ none

section Distinct

variable {all : List Container}

theorem composeSidecars_sublist (all : List Container) : (composeSidecars all).Sublist all :=
  List.filter_sublist.trans List.filter_sublist

theorem testSidecars_sublist (all : List Container) : (testSidecars all).Sublist all :=
  List.filter_sublist.trans List.filter_sublist

theorem mem_of_paired {c app : Container} (h : paired all c = some app) : app ∈ all := by
  obtain ⟨a, -, hp⟩ := Option.bind_eq_some_iff.mp h
  exact (List.mem_filter.mp (mem_of_get_byProjSvc hp)).1

theorem keyContainer_of_some {c app : Container} (h : paired all c = some app) :
    keyContainer all c = app := by rw [keyContainer, h, Option.getD_some]

theorem keyContainer_of_none {c : Container} (h : paired all c = none) : keyContainer all c = c := by
  rw [keyContainer, h, Option.getD_none]

theorem mem_keyContainer {c : Container} (h : c ∈ composeSidecars all) :
    keyContainer all c ∈ all := by
  cases hp : paired all c with
  | none =>
      rw [keyContainer_of_none hp]
      exact (composeSidecars_sublist all).mem h
  | some app =>
      rw [keyContainer_of_some hp]
      exact mem_of_paired hp

/-- The compose sidecars are keyed by different containers. -/
theorem injOn_keyContainer_iff :
    (∀ c ∈ composeSidecars all, ∀ d ∈ composeSidecars all,
      keyContainer all c = keyContainer all d → c = d) ↔
    (∀ c ∈ composeSidecars all, ∀ d ∈ composeSidecars all, ∀ app,
      paired all c = some app → paired all d = some app → c = d) ∧
    ∀ c ∈ composeSidecars all, ∀ d ∈ composeSidecars all,
      paired all c = some d → paired all d ≠ none := by
  constructor
  · intro h
    refine ⟨fun c hc d hd app hpc hpd => h c hc d hd ?_, fun c hc d hd hpc hpd => ?_⟩
    · rw [keyContainer_of_some hpc, keyContainer_of_some hpd]
    · have hcd := h c hc d hd (by rw [keyContainer_of_some hpc, keyContainer_of_none hpd])
      rw [hcd, hpd] at hpc
      cases hpc
  · intro ⟨honce, hunpaired⟩ c hc d hd heq
    cases hpc : paired all c with
    | some x =>
        rw [keyContainer_of_some hpc] at heq
        cases hpd : paired all d with
        | some y =>
            rw [keyContainer_of_some hpd] at heq
            exact honce c hc d hd x hpc (heq ▸ hpd)
        | none =>
            rw [keyContainer_of_none hpd] at heq
            exact absurd hpd (hunpaired c hc d hd (heq ▸ hpc))
    | none =>
        rw [keyContainer_of_none hpc] at heq
        cases hpd : paired all d with
        | some y =>
            rw [keyContainer_of_some hpd] at heq
            exact absurd hpc (hunpaired d hd c hc (heq ▸ hpd))
        | none => rwa [keyContainer_of_none hpd] at heq

/-- None of them is keyed by a sidecar of Testcontainers. -/
theorem keyContainer_ne_iff :
    (∀ c ∈ composeSidecars all, ∀ d ∈ testSidecars all, keyContainer all c ≠ d) ↔
    (∀ c ∈ composeSidecars all, ∀ d ∈ testSidecars all, paired all c ≠ some d) ∧
    ∀ c ∈ composeSidecars all, c ∈ testSidecars all → paired all c ≠ none := by
  constructor
  · intro h
    exact ⟨fun c hc d hd hp => h c hc d hd (keyContainer_of_some hp),
      fun c hc hd hp => h c hc c hd (keyContainer_of_none hp)⟩
  · intro ⟨hapart, hlabelled⟩ c hc d hd heq
    cases hp : paired all c with
    | some x => exact hapart c hc d hd (by rw [hp, ← heq, keyContainer_of_some hp])
    | none =>
        rw [keyContainer_of_none hp] at heq
        exact hlabelled c hc (heq ▸ hd) hp

/-- The keys of both scans are distinct exactly if the sidecars are kept apart. -/
theorem nodup_keys_iff (hnames : (all.map Container.name).Nodup) (scan : ScanEnv) :
    ((scanOnce scan all ++ testcontainersScan all).map ScanResult.key).Nodup ↔ PairedApart all := by
  have hname : ∀ {c d}, c ∈ all → d ∈ all → c.name = d.name → c = d :=
    fun hc hd => List.inj_on_of_nodup_map hnames hc hd
  have hall : all.Nodup := hnames.of_map
  have htest : ((testSidecars all).map Container.name).Nodup :=
    hnames.sublist ((testSidecars_sublist all).map _)
  have hinj : ((composeSidecars all).map fun c => (keyContainer all c).name).Nodup ↔
      ∀ c ∈ composeSidecars all, ∀ d ∈ composeSidecars all,
        keyContainer all c = keyContainer all d → c = d := by
    rw [List.nodup_map_iff_inj_on (hall.sublist (composeSidecars_sublist all))]
    refine forall₄_congr fun c hc d hd => ⟨fun h heq => h (heq ▸ rfl), fun h heq => h ?_⟩
    exact hname (mem_keyContainer hc) (mem_keyContainer hd) heq
  have hdisj : (∀ k ∈ (composeSidecars all).map fun c => (keyContainer all c).name,
      ∀ k' ∈ (testSidecars all).map Container.name, k ≠ k') ↔
      ∀ c ∈ composeSidecars all, ∀ d ∈ testSidecars all, keyContainer all c ≠ d := by
    constructor
    · intro h c hc d hd heq
      exact h _ (List.mem_map_of_mem hc) _ (List.mem_map_of_mem hd) (congrArg Container.name heq)
    · intro h k hk k' hk' heq
      obtain ⟨c, hc, rfl⟩ := List.mem_map.mp hk
      obtain ⟨d, hd, rfl⟩ := List.mem_map.mp hk'
      exact h c hc d hd (hname (mem_keyContainer hc) ((testSidecars_sublist all).mem hd) heq)
  rw [List.map_append, keys_scanOnce, keys_testcontainersScan, List.nodup_append, hinj, hdisj,
    injOn_keyContainer_iff, keyContainer_ne_iff]
  constructor
  · intro ⟨⟨honce, hunpaired⟩, _, hapart, hlabelled⟩
    exact ⟨honce, hunpaired, hapart, hlabelled⟩
  · intro h
    exact ⟨⟨h.once, h.unpaired⟩, htest, h.apart, h.labelled⟩

/-- **The results of the merged container scans have distinct keys, and `Get` under the key of a
    listed instance gives that instance, exactly if** the scans keep the sidecars apart. -/
theorem keys_unique_iff (all : List Container) (hnames : (all.map Container.name).Nodup)
    (scan : ScanEnv) (probe : ScanResult → Probe) :
    (∃ results, merge [some (scanOnce scan all), some (testcontainersScan all)] = some results ∧
      (results.map ScanResult.key).Nodup ∧
      ∀ i ∈ list (results.map (enrich probe)),
        get (results.map (enrich probe)) i.instanceKey = some i) ↔
    PairedApart all := by
  rw [merge_scans, ← nodup_keys_iff hnames scan]
  constructor
  · intro ⟨results, hres, hkeys, _⟩
    rwa [Option.some.inj hres]
  · intro hkeys
    refine ⟨_, rfl, hkeys, fun i hi => get_of_key ?_ ((sortInstances_perm _).mem_iff.mp hi)⟩
    rw [List.map_map]
    have hcomp : Instance.instanceKey ∘ enrich probe = ScanResult.key :=
      funext fun r => key_enrich probe r
    rwa [hcomp]

end Distinct

/-- A container `name` of the service `service` in the project `p`. -/
def containerP (name : Char) (service : Str) (argv : List Str) : Container where
  id := [name]
  name := [name]
  labels := (Dict.empty.put labelComposeProject "p".toList).put labelComposeService service
  argv := argv
  named := List.cons_ne_nil _ _

/-- The sidecar of a service `app`, scaled to the instances `names`. -/
def sidecarsP (names : List Char) : List Container :=
  names.map fun n => containerP n "dapr".toList
    ["./daprd".toList, "-app-id".toList, "app".toList]

def appP : Container := containerP 'a' "app".toList []

theorem keys_unique_iff_alone :
    (([appP] ++ sidecarsP ['d']).map Container.name).Nodup ∧
      ∀ scan probe, ∃ results,
        merge [some (scanOnce scan ([appP] ++ sidecarsP ['d'])),
          some (testcontainersScan ([appP] ++ sidecarsP ['d']))] = some results ∧
        (results.map ScanResult.key).Nodup ∧
        ∀ i ∈ list (results.map (enrich probe)),
          get (results.map (enrich probe)) i.instanceKey = some i := by
  have hnames : (([appP] ++ sidecarsP ['d']).map Container.name).Nodup := by decide
  have hside : composeSidecars ([appP] ++ sidecarsP ['d']) = sidecarsP ['d'] := by rfl
  have htest : testSidecars ([appP] ++ sidecarsP ['d']) = [] := by rfl
  have hpaired : paired ([appP] ++ sidecarsP ['d']) (containerP 'd' "dapr".toList
      ["./daprd".toList, "-app-id".toList, "app".toList]) = some appP := by rfl
  refine ⟨hnames, fun scan probe => (keys_unique_iff _ hnames scan probe).mpr ?_⟩
  constructor
  · intro c hc d hd _ _ _
    rw [hside] at hc hd
    rw [List.mem_singleton.mp hc, List.mem_singleton.mp hd]
  · intro c hc d hd hp
    rw [hside] at hc hd
    rw [List.mem_singleton.mp hd, hpaired]
    exact Option.some_ne_none _
  · intro c _ d hd
    rw [htest] at hd
    cases hd
  · intro c _ hd
    rw [htest] at hd
    cases hd

/-- **A scaled sidecar**: two daprd containers of one service, and the app container of the service
    that both name. The containers have different names, both results have the key `a`. -/
theorem scaled_sidecars_collide :
    (([appP] ++ sidecarsP ['d', 'e']).map Container.name).Nodup ∧
      ∀ scan : ScanEnv, ∃ results,
        merge [some (scanOnce scan ([appP] ++ sidecarsP ['d', 'e'])),
          some (testcontainersScan ([appP] ++ sidecarsP ['d', 'e']))] = some results ∧
        results.map ScanResult.key = ["a".toList, "a".toList] ∧ ¬ (results.map ScanResult.key).Nodup := by
  refine ⟨by decide, fun scan => ⟨_, merge_scans _ _, ?_⟩⟩
  have hkeys : ((scanOnce scan ([appP] ++ sidecarsP ['d', 'e']) ++
      testcontainersScan ([appP] ++ sidecarsP ['d', 'e'])).map ScanResult.key) = ["a".toList, "a".toList] := by
    rw [List.map_append, keys_scanOnce, keys_testcontainersScan]
    rfl
  rw [hkeys]
  exact ⟨rfl, by decide⟩

end DevDashboard.Discovery
