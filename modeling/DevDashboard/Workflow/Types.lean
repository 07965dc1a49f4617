/-
  File:      DevDashboard/Workflow/Types.lean
  Subject:   THE WORKFLOW API'S DATA (`pkg/workflow/types.go`).

  Times are instants in nanoseconds; a time zone changes how one is shown, not which one it is,
  so `.Local()` is the identity here. The zero `time.Time` is `zeroTime`.
-/
import DevDashboard.Lib.Str

namespace DevDashboard.Workflow

open Lib

abbrev Time := Int

/-- The instant of Go's zero `time.Time`, January 1 of year 1, counted from the Unix epoch. -/
def zeroTime : Time := -62135596800 * 1000000000

/-- `Status`: the six statuses of the dashboard. A query may name a string that is none of
    them (`other`). -/
inductive Status where
  | pending
  | running
  | completed
  | failed
  | terminated
  | suspended
  | other (raw : Str)
  deriving DecidableEq

/-- durabletask's `ORCHESTRATION_STATUS_*`; `unknown` is any string `NormalizeStatus` does not
    name. -/
inductive OrchestrationStatus where
  | completed
  | failed
  | terminated
  | canceled
  | suspended
  | running
  | continuedAsNew
  | stalled
  | unknown
  deriving DecidableEq

/-- `NormalizeStatus`: unknown and not-yet-started values are `pending`. -/
def normalizeStatus : OrchestrationStatus → Status
  | .completed => .completed
  | .failed => .failed
  | .terminated | .canceled => .terminated
  | .suspended => .suspended
  | .running | .continuedAsNew | .stalled => .running
  | .unknown => .pending

/-- `Status.IsTerminal`. -/
def Status.isTerminal : Status → Bool
  | .completed | .failed | .terminated => true
  | _ => false

structure FailureDetails where
  errorType : Str
  message : Str
  stackTrace : Str
  deriving DecidableEq

/-- The type name `decodeEvent` gives an event. -/
inductive EventType where
  | executionStarted
  | executionFailed
  | executionCompleted
  | executionTerminated
  | executionSuspended
  | executionResumed
  | taskScheduled
  | taskCompleted
  | taskFailed
  | timerCreated
  | timerFired
  | eventRaised
  | eventSent
  | orchestratorStarted
  | orchestratorCompleted
  | subOrchestrationCreated
  | subOrchestrationCompleted
  | subOrchestrationFailed
  | unknown
  deriving DecidableEq

structure HistoryEvent where
  sequenceID : Int := 0
  timestamp : Time := zeroTime
  type : EventType := .unknown
  name : Str := []
  instanceID : Str := []
  scheduledID : Option Int := none
  input : Option Str := none
  output : Option Str := none
  failureDetails : Option FailureDetails := none
  deriving DecidableEq

structure ExecutionSummary where
  appID : Str
  instanceID : Str
  name : Str := []
  status : Status
  parentInstanceID : Str := []
  createdAt : Option Time := none
  lastUpdatedAt : Option Time := none
  deriving DecidableEq

structure Execution where
  summary : ExecutionSummary
  input : Option Str := none
  output : Option Str := none
  customStatus : Str := []
  replayCount : Int := 0
  failureDetails : Option FailureDetails := none
  history : List HistoryEvent
  deriving DecidableEq

end DevDashboard.Workflow
