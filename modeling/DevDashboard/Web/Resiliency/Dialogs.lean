/-
  File:      DevDashboard/Web/Resiliency/Dialogs.lean
  Subject:   WHAT THE POLICY DIALOGS SAVE (pages/resiliency-builder/policyDialogs.tsx).

  A dialog holds the texts of its fields, whatever the user typed into them. It can be saved if
  its checks pass, and then hands over a name and a policy. `Number` is the conversion of a text
  to a number.

  * `TimeoutForm.not_blank` -- a saved timeout is not blank;
  * `CircuitBreakerForm.canSave_blank` -- a circuit breaker may be saved with nothing in it.
-/
import DevDashboard.Web.Resiliency.Reducer
import DevDashboard.Web.Validation

namespace DevDashboard.Web.Resiliency

open Lib

variable {ν : Type}

/-- What a dialog is opened with. -/
structure DialogProps where
  editing : Bool
  initialName : Str
  existingNames : Option (List Str)

/-- `duplicateNameError`. -/
def duplicateNameError (name : Str) (props : DialogProps) (what : Str) : Option Str :=
  if ¬ props.existingNames.any (name ∈ ·) then none
  else if props.editing ∧ name = props.initialName then none
  else some ("A ".toList ++ what ++ " with this name already exists".toList)

/-- `isDefaultPolicyName`. -/
def isDefaultPolicyName (name : Str) : Bool := Str.hasPrefix name "DaprBuiltIn".toList

/-- `nameErr` of a policy dialog; only the retry dialog has an error of its own. -/
def policyNameError (name : Str) (props : DialogProps) (reservedErr : Option Str) (what : Str) :
    Option Str :=
  if name = [] then some "Name is required".toList
  else ((validateResourceName name).or reservedErr).or (duplicateNameError name props what)

theorem valid_of_policyNameError {name : Str} {props : DialogProps} {reservedErr : Option Str}
    {what : Str} (h : policyNameError name props reservedErr what = none) :
    validateResourceName name = none := by
  simp only [policyNameError] at h
  split at h
  · exact absurd h (by simp)
  · rw [Option.or_eq_none_iff, Option.or_eq_none_iff] at h
    exact h.1.1

/-! ## 1. Timeouts -/

structure TimeoutForm where
  name : Str
  duration : Str

namespace TimeoutForm

def canSave (props : DialogProps) (form : TimeoutForm) : Bool :=
  (policyNameError form.name props none "timeout policy".toList).isNone &&
    (decide (form.duration ≠ []) && (validateGoDuration form.duration).isNone)

theorem not_blank {props : DialogProps} {form : TimeoutForm} (h : form.canSave props = true) :
    isBlank form.duration = false := by
  simp only [canSave, Bool.and_eq_true, Option.isNone_iff_eq_none, decide_eq_true_eq] at h
  exact not_blank_of_valid_duration h.2.1 h.2.2

theorem name_ne_proto {props : DialogProps} {form : TimeoutForm} (h : form.canSave props = true) :
    form.name ≠ Obj.protoName := by
  simp only [canSave, Bool.and_eq_true, Option.isNone_iff_eq_none] at h
  exact ne_proto_of_valid_name (valid_of_policyNameError h.1)

end TimeoutForm

/-! ## 2. Retries -/

structure RetryForm where
  name : Str
  policy : RetryKind
  duration : Str
  maxInterval : Str
  maxRetries : Str
  http : Str
  grpc : Str

/-- `RetryDialog`'s own properties. -/
structure RetryProps extends DialogProps where
  lockName : Bool
  keepDurationForExponential : Bool

namespace RetryForm

def reservedErr (props : RetryProps) (form : RetryForm) : Option Str :=
  if ¬ props.lockName ∧ isDefaultPolicyName form.name then
    some "Names starting with \"DaprBuiltIn\" are reserved for built-in overrides".toList
  else none

def durField (form : RetryForm) : Str :=
  match form.policy with
  | .constant => form.duration
  | .exponential => form.maxInterval

def canSave (props : RetryProps) (form : RetryForm) : Bool :=
  (policyNameError form.name props.toDialogProps (form.reservedErr props)
      "retry policy".toList).isNone &&
    (decide (form.durField ≠ []) && (validateGoDuration form.durField).isNone) &&
    (integerError form.maxRetries).isNone &&
    ((validateStatusCodes form.http).isNone && (validateStatusCodes form.grpc).isNone)

def save (Number : Str → ν) (props : RetryProps) (form : RetryForm) : RetryPolicy ν where
  policy := some form.policy
  maxRetries := if form.maxRetries = [] then none else some (Number form.maxRetries)
  matching := some { httpStatusCodes := some form.http, grpcStatusCodes := some form.grpc }
  duration :=
    match form.policy with
    | .constant => some form.duration
    | .exponential =>
        if props.keepDurationForExponential ∧ form.duration ≠ [] then some form.duration else none
  maxInterval :=
    match form.policy with
    | .constant => none
    | .exponential => some form.maxInterval

theorem name_ne_proto {props : RetryProps} {form : RetryForm} (h : form.canSave props = true) :
    form.name ≠ Obj.protoName := by
  simp only [canSave, Bool.and_eq_true, Option.isNone_iff_eq_none] at h
  exact ne_proto_of_valid_name (valid_of_policyNameError h.1.1.1)

end RetryForm

/-! ## 3. Circuit breakers -/

structure CircuitBreakerForm where
  name : Str
  maxRequests : Str
  timeoutDur : Str
  trip : Str
  intervalDur : Str

namespace CircuitBreakerForm

def canSave (props : DialogProps) (form : CircuitBreakerForm) : Bool :=
  (policyNameError form.name props none "circuit breaker policy".toList).isNone &&
    (integerError form.maxRequests).isNone && (validateGoDuration form.timeoutDur).isNone &&
    (validateGoDuration form.intervalDur).isNone

def save (Number : Str → ν) (form : CircuitBreakerForm) : CircuitBreakerPolicy ν where
  maxRequests := if form.maxRequests = [] then none else some (Number form.maxRequests)
  timeout := some form.timeoutDur
  trip := some form.trip
  interval := some form.intervalDur

theorem name_ne_proto {props : DialogProps} {form : CircuitBreakerForm}
    (h : form.canSave props = true) : form.name ≠ Obj.protoName := by
  simp only [canSave, Bool.and_eq_true, Option.isNone_iff_eq_none] at h
  exact ne_proto_of_valid_name (valid_of_policyNameError h.1.1.1)

/-- Unlike the durations of the other policies, none of a circuit breaker's fields has to be
    filled in. -/
theorem canSave_blank {name : Str} {props : DialogProps}
    (h : policyNameError name props none "circuit breaker policy".toList = none) :
    canSave props
      { name, maxRequests := [], timeoutDur := [], trip := [], intervalDur := [] } = true := by
  simp only [canSave, h, Option.isNone_none, Bool.true_and]
  decide

end CircuitBreakerForm

end DevDashboard.Web.Resiliency
