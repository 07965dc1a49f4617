/-
  File:      DevDashboard/Workflow/Decode.lean
  Subject:   DECODING AN INSTANCE (`pkg/workflow/decode.go`).

  The protobuf and JSON readers and durabletask's `runtimestate` are other packages: they are the
  fields of `Codec`, arbitrary functions here. What the dashboard itself does with what they
  return is `decodeExecution`, `decodeEvent` and `historyLength`.
-/
import DevDashboard.Workflow.Types
import DevDashboard.StateStore.Store

namespace DevDashboard.Workflow

open Lib StateStore

/-! ## 1. What the other packages read -/

structure TaskFailureDetails where
  errorType : Str
  errorMessage : Str
  /-- `fd.GetStackTrace().GetValue()`, empty when unset -/
  stackTrace : Str
  deriving DecidableEq

/-- The `oneof` of `protos.HistoryEvent`, with the fields the dashboard reads. -/
inductive EventKind where
  | executionStarted (name : Str) (input : Option Str) (parentInstance : Option (Option Str))
  | executionCompleted (result : Option Str) (failure : Option TaskFailureDetails)
  | executionTerminated (input : Option Str)
  | executionSuspended
  | executionResumed
  | taskScheduled (name : Str) (input : Option Str)
  | taskCompleted (taskScheduledID : Int) (result : Option Str)
  | taskFailed (taskScheduledID : Int) (failure : Option TaskFailureDetails)
  | timerCreated
  | timerFired (timerID : Int)
  | eventRaised (name : Str) (input : Option Str)
  | eventSent (name : Str) (input : Option Str)
  | orchestratorStarted
  | orchestratorCompleted
  | subOrchestrationInstanceCreated (name : Str) (instanceID : Str)
  | childWorkflowInstanceCompleted (taskScheduledID : Int) (result : Option Str)
  | childWorkflowInstanceFailed (taskScheduledID : Int) (failure : Option TaskFailureDetails)
  | other
  deriving DecidableEq

/-- `protos.HistoryEvent`. -/
structure ProtoEvent where
  eventID : Int
  timestamp : Option Time
  kind : EventKind
  deriving DecidableEq

/-- What `runtimestate` derives from an instance's id, custom status and events. An accessor that
    returns an error is `none`. -/
structure RuntimeState where
  status : OrchestrationStatus
  name : Option Str := none
  createdTime : Option Time := none
  input : Option (Option Str) := none
  output : Option (Option Str) := none
  failureDetails : Option (Option TaskFailureDetails) := none
  lastUpdatedTime : Option Time := none

/-- The readers of other packages. -/
structure Codec where
  /-- `proto.Unmarshal` into a `protos.HistoryEvent` -/
  event : Bytes → Option ProtoEvent
  /-- `proto.Unmarshal` into a `BackendWorkflowStateMetadata`, its `HistoryLength` -/
  metadata : Bytes → Option Nat
  /-- `json.Unmarshal` of the legacy record, its `HistoryLength` -/
  legacy : Bytes → Option Nat
  /-- `string(v)`: the text the bytes of a value are shown as -/
  text : Bytes → Str
  /-- `runtimestate.NewOrchestrationRuntimeState` and its accessors -/
  runtimeState : Str → Option Str → List ProtoEvent → RuntimeState

/-! ## 2. Events and executions -/

/-- `failureFromProto`. -/
def failureFromProto (fd : Option TaskFailureDetails) : Option FailureDetails :=
  fd.map fun d => ⟨d.errorType, d.errorMessage, d.stackTrace⟩

/-- `decodeEvent`. -/
def decodeEvent (e : ProtoEvent) : HistoryEvent :=
  let ev : HistoryEvent := { sequenceID := e.eventID, timestamp := e.timestamp.getD zeroTime }
  match e.kind with
  | .executionStarted name input _ =>
      { ev with type := .executionStarted, name := name, input := input }
  | .executionCompleted result failure =>
      -- a failed run is an ExecutionCompleted that carries FailureDetails
      match failure with
      | some fd =>
          { ev with type := .executionFailed, failureDetails := failureFromProto (some fd) }
      | none => { ev with type := .executionCompleted, output := result }
  | .executionTerminated input => { ev with type := .executionTerminated, output := input }
  | .executionSuspended => { ev with type := .executionSuspended }
  | .executionResumed => { ev with type := .executionResumed }
  | .taskScheduled name input => { ev with type := .taskScheduled, name := name, input := input }
  | .taskCompleted id result =>
      { ev with type := .taskCompleted, output := result, scheduledID := some id }
  | .taskFailed id failure =>
      { ev with type := .taskFailed, scheduledID := some id,
                failureDetails := failureFromProto failure }
  | .timerCreated => { ev with type := .timerCreated }
  | .timerFired id => { ev with type := .timerFired, scheduledID := some id }
  | .eventRaised name input => { ev with type := .eventRaised, name := name, input := input }
  | .eventSent name input => { ev with type := .eventSent, name := name, input := input }
  | .orchestratorStarted => { ev with type := .orchestratorStarted }
  | .orchestratorCompleted => { ev with type := .orchestratorCompleted }
  | .subOrchestrationInstanceCreated name id =>
      { ev with type := .subOrchestrationCreated, name := name, instanceID := id }
  | .childWorkflowInstanceCompleted id result =>
      { ev with type := .subOrchestrationCompleted, output := result, scheduledID := some id }
  | .childWorkflowInstanceFailed id failure =>
      { ev with type := .subOrchestrationFailed, scheduledID := some id,
                failureDetails := failureFromProto failure }
  | .other => ev

def isOrchestratorStarted (e : ProtoEvent) : Bool :=
  match e.kind with
  | .orchestratorStarted => true
  | _ => false

/-- The parent's instance id an event carries (empty: none). -/
def parentOf (e : ProtoEvent) : Str :=
  match e.kind with
  | .executionStarted _ _ (some (some id)) => id
  | _ => []

/-- The first non-empty parent id of the history. -/
def parentInstanceID (history : List ProtoEvent) : Str :=
  history.foldl (fun acc e => if acc = [] then parentOf e else acc) []

/-- `DecodeExecution`. -/
def decodeExecution (cd : Codec) (appID instanceID : Str) (history : List ProtoEvent)
    (customStatus : Str) : Execution :=
  let rs := cd.runtimeState instanceID (if customStatus = [] then none else some customStatus)
    history
  let status := normalizeStatus rs.status
  let replays := history.countP isOrchestratorStarted
  { summary :=
      { appID := appID
        instanceID := instanceID
        name := rs.name.getD []
        status := status
        parentInstanceID := parentInstanceID history
        createdAt := rs.createdTime.filter (· ≠ zeroTime)
        lastUpdatedAt :=
          if status.isTerminal then rs.lastUpdatedTime.filter (· ≠ zeroTime) else none }
    input := rs.input.getD none
    output := rs.output.getD none
    customStatus := customStatus
    replayCount := if replays > 0 then replays - 1 else 0
    failureDetails := failureFromProto (rs.failureDetails.getD none)
    history := history.map decodeEvent }

/-- `maxHistoryEntries`. -/
def maxHistoryEntries : Nat := 1000000

/-- `historyLength`: the usable `HistoryLength` of a metadata record. A record that starts with
    `{` (0x7b) is the legacy JSON one. -/
def historyLength (cd : Codec) (record : Option Bytes) : Option Nat :=
  match record with
  | none | some [] => none
  | some (b :: bs) =>
      match (if b = 0x7b then cd.legacy (b :: bs) else cd.metadata (b :: bs)) with
      | none => none
      | some n => if 0 < n ∧ n ≤ maxHistoryEntries then some n else none

theorem historyLength_bounds {cd : Codec} {m : Option Bytes} {n : Nat}
    (h : historyLength cd m = some n) : 0 < n ∧ n ≤ maxHistoryEntries := by
  unfold historyLength at h
  split at h
  · cases h
  · cases h
  · split at h
    · cases h
    · split at h
      · cases h
        assumption
      · cases h

/-- A usable record is there. -/
theorem isSome_of_historyLength {cd : Codec} {m : Option Bytes} {n : Nat}
    (h : historyLength cd m = some n) : m.isSome = true := by
  cases m with
  | none => cases h
  | some b => rfl

end DevDashboard.Workflow
