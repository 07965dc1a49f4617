/-
  File:      DevDashboard/Server/Purge.lean
  Subject:   THE BULK REMOVAL ENDPOINT (`pkg/server/workflows.go`, `POST /purge`) AND THE TARGET
             RESOLVER IT CALLS (`cmd/workflow.go`).

  * `purge_targets`, `purge_results` -- the handler removes the references that resolve, each as
    itself, and reports one result per reference.
-/
import DevDashboard.Workflow.Remove

namespace DevDashboard.Server

open Lib StateStore Workflow

/-! ## 1. Resolving a target -/

/-- What discovery knows of a running app, as far as a removal needs it. -/
structure AppInstance where
  httpPort : Int := 0
  daprHTTPBaseURL : Str := []
  healthy : Bool := false
  /-- `Namespace`, empty for host-scanned apps -/
  ns : Str := []

/-- `fmt.Errorf("resolve workflow %s/%s: %w", ...)`. -/
def resolveError (appID instanceID err : Str) : Str :=
  "resolve workflow ".toList ++ appID ++ "/".toList ++ instanceID ++ ": ".toList ++ err

/-- `targetResolver.Resolve`: an app discovery does not know is a target without a sidecar. -/
def resolve {E : Type} (errText : E → Str) (apps : Str → Option AppInstance)
    (wf : Str → Str → Except E Execution) (appID instanceID : Str) : Except Str RemoveTarget :=
  let inst := (apps appID).getD {}
  match wf appID instanceID with
  | .error err => .error (resolveError appID instanceID (errText err))
  | .ok ex =>
      .ok { appID, instanceID, status := ex.summary.status, httpPort := inst.httpPort,
            daprHTTPBaseURL := inst.daprHTTPBaseURL, healthy := inst.healthy, ns := inst.ns }

theorem resolve_ok {E : Type} {errText : E → Str} {apps : Str → Option AppInstance}
    {wf : Str → Str → Except E Execution} {appID instanceID : Str} {t : RemoveTarget}
    (h : resolve errText apps wf appID instanceID = .ok t) :
    t.appID = appID ∧ t.instanceID = instanceID ∧ t.ns = ((apps appID).getD {}).ns ∧
      ∃ ex, wf appID instanceID = .ok ex := by
  unfold resolve at h
  cases hw : wf appID instanceID with
  | error err => simp [hw] at h
  | ok ex =>
      simp only [hw, Except.ok.injEq] at h
      subst h
      exact ⟨rfl, rfl, rfl, ex, rfl⟩

theorem exists_resolve {E : Type} (errText : E → Str) (apps : Str → Option AppInstance)
    {wf : Str → Str → Except E Execution} {appID instanceID : Str} {ex : Execution}
    (h : wf appID instanceID = .ok ex) : ∃ t, resolve errText apps wf appID instanceID = .ok t := by
  simp only [resolve, h]
  exact ⟨_, rfl⟩

/-! ## 2. The handler -/

/-- `targetRef`: an app-id and an instance-id. -/
structure TargetRef where
  appID : Str
  instanceID : Str
  deriving DecidableEq

/-- `removeBody`. -/
structure RemoveBody where
  ids : List TargetRef
  force : Bool

def errNotResolved : Str := "could not resolve target".toList

/-- What the handler did: the references it resolved, in order, the targets it handed to the
    remover, the store's content after it, and the results it answered with. -/
structure Purged where
  resolved : List TargetRef
  targets : List RemoveTarget
  content : Content
  results : List RemoveResult

/-- The resolving loop: the targets, and a failed result for each reference without one. -/
def resolveAll (resolve : Str → Str → Except Str RemoveTarget) :
    List TargetRef → List RemoveTarget × List RemoveResult
  | [] => ([], [])
  | ref :: refs =>
      let rest := resolveAll resolve refs
      match resolve ref.appID ref.instanceID with
      | .error _ => (rest.1, { instanceID := ref.instanceID, error := errNotResolved } :: rest.2)
      | .ok t => (t :: rest.1, rest.2)

/-- What the `POST /purge` handler does once the store is known and the body read. -/
def purge {A : Type} (resolve : Str → Str → Except Str RemoveTarget) (r : Remover)
    (envs : Nat → Env A) (c : Content) (body : RemoveBody) : Purged :=
  let (tgts, failed) := resolveAll resolve body.ids
  let done := removeMany r body.force envs tgts c
  ⟨body.ids, tgts, done.1, done.2.map (·.result) ++ failed⟩

/-- The `POST /purge` handler: `backend` is `none` for an unknown store, `body` for a body that is
    no JSON. An error is a status code and its text. -/
def purgeHandler {A : Type} (backend : Option ((Str → Str → Except Str RemoveTarget) × Remover))
    (envs : Nat → Env A) (c : Content) (body : Option RemoveBody) : Except (Nat × Str) Purged :=
  match backend with
  | none => .error (404, "unknown state store".toList)
  | some (resolve, r) =>
      match body with
      | none => .error (400, "invalid JSON body".toList)
      | some body => .ok (purge resolve r envs c body)

section Handler

variable {E : Type} (errText : E → Str) (apps : Str → Option AppInstance)
  (wf : Str → Str → Except E Execution)

/-- The references the resolver accepts. -/
def accepted (ref : TargetRef) : Bool := (wf ref.appID ref.instanceID).isOk

/-- The targets are the accepted references, in order, each as itself. -/
theorem resolveAll_targets (refs : List TargetRef) :
    (resolveAll (resolve errText apps wf) refs).1.map (fun t => TargetRef.mk t.appID t.instanceID) =
      refs.filter (accepted wf) := by
  induction refs with
  | nil => rfl
  | cons ref refs ih =>
      cases hr : wf ref.appID ref.instanceID with
      | error err => simpa [resolveAll, resolve, hr, accepted, Except.isOk, Except.toBool] using ih
      | ok ex => simpa [resolveAll, resolve, hr, accepted, Except.isOk, Except.toBool] using ih

/-- Every other reference is reported as failed. -/
theorem resolveAll_failed (refs : List TargetRef) :
    (resolveAll (resolve errText apps wf) refs).2 =
      (refs.filter fun ref => !accepted wf ref).map fun ref =>
        { instanceID := ref.instanceID, error := errNotResolved } := by
  induction refs with
  | nil => rfl
  | cons ref refs ih =>
      cases hr : wf ref.appID ref.instanceID with
      | error err => simpa [resolveAll, resolve, hr, accepted, Except.isOk, Except.toBool] using ih
      | ok ex => simpa [resolveAll, resolve, hr, accepted, Except.isOk, Except.toBool] using ih

variable {A : Type} (r : Remover) (envs : Nat → Env A) (c : Content) (body : RemoveBody)

/-- **The handler removes the accepted references and no others.** -/
theorem purge_targets :
    (purge (resolve errText apps wf) r envs c body).targets.map
        (fun t => TargetRef.mk t.appID t.instanceID) = body.ids.filter (accepted wf) :=
  resolveAll_targets errText apps wf body.ids

/-- **One result per reference.** -/
theorem purge_results :
    ((purge (resolve errText apps wf) r envs c body).results.map (·.instanceID)).Perm
      (body.ids.map (·.instanceID)) := by
  have hok : (resolveAll (resolve errText apps wf) body.ids).1.map (·.instanceID) =
      (body.ids.filter (accepted wf)).map (·.instanceID) := by
    rw [← resolveAll_targets errText apps wf, List.map_map]
    rfl
  have hfailed : (resolveAll (resolve errText apps wf) body.ids).2.map (·.instanceID) =
      (body.ids.filter fun ref => !accepted wf ref).map (·.instanceID) := by
    rw [resolveAll_failed, List.map_map]
    rfl
  have hdone := removeMany_results r body.force envs
    (resolveAll (resolve errText apps wf) body.ids).1 c
  simp only [purge, List.map_append, List.map_map, Function.comp_def]
  rw [hdone, hok, hfailed, ← List.map_append]
  exact (List.filter_append_perm _ _).map _

end Handler

end DevDashboard.Server
