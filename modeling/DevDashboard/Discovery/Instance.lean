/-
  File:      DevDashboard/Discovery/Instance.lean
  Subject:   DISCOVERED INSTANCES (`pkg/discovery/types.go`, `pkg/discovery/service.go`: `List`,
             `Get`).

  A scan gives results, each enriched to an instance. `List` sorts them, `Get` looks for an
  instance key first and for an app-id then, in the order of the scan.

  * `get_of_key` -- with distinct keys, what `Get` finds under the key of an instance;
  * `get_of_not_key` -- what it finds under a key that no instance has.
-/
import DevDashboard.Cmd.ServiceFor

namespace DevDashboard.Discovery

open Lib
open Cmd (Source)

/-! ## 1. Instances -/

/-- `StatusRunning`, `StatusStopped`, or `""`. -/
inductive RunStatus where
  | unknown
  | running
  | stopped
  deriving DecidableEq

inductive Health where
  | healthy
  | starting
  | unhealthy
  | unknown
  deriving DecidableEq

/-- Is the sidecar a container? -/
def inContainer : Source → Bool
  | .compose | .testcontainers => true
  | .standalone | .aspire => false

/-- `Instance`. Outside containers its key is the app-id, the container scans know no PID of a
    daprd, and a sidecar is an orphan only if its app is stopped. -/
structure Instance where
  appID : Str
  instanceKey : Str
  source : Source
  isAspire : Bool := false
  sidecarOrphaned : Bool := false
  health : Health := .unknown
  sidecarReachable : Bool := true
  metadataOK : Bool := false
  appStatus : RunStatus := .unknown
  daprdStatus : RunStatus := .unknown
  appPID : Nat := 0
  daprdPID : Nat := 0
  cliPID : Nat := 0
  appStartedAt : Str := []
  daprdStartedAt : Str := []
  appLogPath : Str := []
  daprdLogPath : Str := []
  appContainerID : Str := []
  daprdContainerID : Str := []
  age : Str := []
  created : Str := []
  runtimeVersion : Str := []
  placement : Str := []
  /-- The names of what the sidecar's metadata lists. -/
  actors : List Str := []
  subscriptions : List Str := []
  components : List Str := []
  resiliencies : List Str := []
  httpEndpoints : List Str := []
  enabledFeatures : List Str := []
  key_host : inContainer source = false → instanceKey = appID
  pid_container : inContainer source = true → daprdPID = 0
  orphan_stopped : sidecarOrphaned = true → appStatus = .stopped

/-! ## 2. `List` and `Get` -/

/-- The order of a listing: by app-id, then by key. -/
def listedBefore (a b : Instance) : Bool :=
  if a.appID ≠ b.appID then decide (a.appID < b.appID) else decide (a.instanceKey < b.instanceKey)

/-- `sort.SliceStable` in that order. -/
def sortInstances (items : List Instance) : List Instance :=
  items.mergeSort fun a b => !listedBefore b a

/-- `service.List` over the instances of a scan. -/
def list (live : List Instance) : List Instance := sortInstances live

/-- `service.Get`; `none` is `ErrNotFound`. -/
def get (live : List Instance) (key : Str) : Option Instance :=
  match live.find? fun i => decide (i.instanceKey = key) with
  | some i => some i
  | none => live.find? fun i => decide (i.appID = key)

theorem sortInstances_perm (items : List Instance) : (sortInstances items).Perm items :=
  List.mergeSort_perm _ _

/-- **With distinct keys, `Get` finds the instance of a key.** -/
theorem get_of_key {live : List Instance} (h : (live.map Instance.instanceKey).Nodup)
    {i : Instance} (hi : i ∈ live) : get live i.instanceKey = some i := by
  have hfind : (live.find? fun j => decide (j.instanceKey = i.instanceKey)) = some i := by
    induction live with
    | nil => cases hi
    | cons j live ih =>
        obtain ⟨hj, hnd⟩ := List.nodup_cons.mp h
        rcases List.mem_cons.mp hi with rfl | hi
        · simp
        · have hne : j.instanceKey ≠ i.instanceKey := fun he => hj (he ▸ List.mem_map_of_mem hi)
          rw [List.find?_cons_of_neg (by simp [hne])]
          exact ih hnd hi
  rw [get, hfind]

theorem get_of_not_key {live : List Instance} {key : Str}
    (h : key ∉ live.map Instance.instanceKey) :
    get live key = live.find? fun i => decide (i.appID = key) := by
  have hnone : (live.find? fun i => decide (i.instanceKey = key)) = none := by
    refine List.find?_eq_none.mpr fun i hi hk => h ?_
    exact List.mem_map.mpr ⟨i, hi, of_decide_eq_true hk⟩
  rw [get, hnone]

/-- What `Get` finds is an instance of the scan. -/
theorem mem_of_get {live : List Instance} {key : Str} {i : Instance} (h : get live key = some i) :
    i ∈ live := by
  unfold get at h
  split at h
  · rename_i j hj
    cases h
    exact List.mem_of_find?_eq_some hj
  · exact List.mem_of_find?_eq_some h

end DevDashboard.Discovery
