/-
  File:      DevDashboard/Lifecycle/Manager.lean
  Subject:   STOPPING AN INSTANCE (`pkg/lifecycle/manager.go`: `Do` with the action `stop`,
             `standaloneStop`, `terminateWithEscalation`, `composeTargets`).

  A stop takes snapshots, records them, and then signals. What the process controller answers is
  a parameter (`ProcEnv`).

  * `get_standaloneStop` -- what a stop leaves of the registry;
  * `overlayGet_cases` -- which instance a stop works on;
  * `not_restarted_applyEntry` -- a snapshot that survives a look at the live instance is of a
    process that has not come back under another PID.
-/
import DevDashboard.Lifecycle.Overlay

namespace DevDashboard.Lifecycle

open Lib Discovery
open Cmd (Source)

/-! ## 1. Signals -/

/-- What the process controller answers during one stop: the snapshots, whether SIGTERM and SIGKILL
    can be sent, what each look within the grace period finds (is the process alive, is the request
    cancelled), and whether the process is alive when it is over. -/
structure ProcEnv where
  snapshot : Nat → Option ProcSnapshot
  terminate : Nat → Bool
  looks : Nat → List (Bool × Bool)
  aliveAfter : Nat → Bool
  kill : Nat → Bool
  snapshot_pid : ∀ pid s, snapshot pid = some s → s.pid = pid

/-- A controller that sees all processes or none. -/
theorem snapshot_pid_of_seen (seen : Bool) (pid : Nat) (s : ProcSnapshot)
    (h : (if seen then some { pid := pid } else none : Option ProcSnapshot) = some s) :
    s.pid = pid := by
  split at h
  · cases h
    rfl
  · cases h

inductive SignalError where
  | terminate
  | cancelled
  | kill
  deriving DecidableEq

/-- The loop of `terminateWithEscalation`; `none` if the grace period ends. -/
def awaitExit : List (Bool × Bool) → Option (Except SignalError Unit)
  | [] => none
  | (alive, cancelled) :: looks =>
      if !alive then some (.ok ())
      else if cancelled then some (.error .cancelled)
      else awaitExit looks

/-- `terminateWithEscalation`. -/
def terminateWithEscalation (env : ProcEnv) (pid : Nat) : Except SignalError Unit :=
  if !env.terminate pid then .error .terminate
  else
    match awaitExit (env.looks pid) with
    | some res => res
    | none => if env.aliveAfter pid && !env.kill pid then .error .kill else .ok ()

inductive StopError where
  | notFound (key : Str)
  | unsupported (why : Str)
  | runtimeUnavailable
  | runtime (container : Str)
  | stopPid (pid : Nat) (cause : SignalError)

/-- The signals of a stop, one PID after another. -/
def signalAll (env : ProcEnv) : List Nat → Except StopError Unit
  | [] => .ok ()
  | pid :: pids =>
      match terminateWithEscalation env pid with
      | .error cause => .error (.stopPid pid cause)
      | .ok () => signalAll env pids

/-! ## 2. `standaloneStop` -/

/-- `snapshot` of `standaloneStop`: a process without a PID has none. -/
def takeSnapshot (env : ProcEnv) (pid : Nat) (logPath : Str) : Option ProcSnapshot :=
  if pid = 0 then none else (env.snapshot pid).map fun s => { s with logPath := logPath }

/-- The snapshots of a stop: of all three processes, unless the sidecar alone is stopped. -/
def snapshots (env : ProcEnv) (i : Instance) (target : Target) : Target → Option ProcSnapshot
  | .app => if target = .daprd then none else takeSnapshot env i.appPID i.appLogPath
  | .daprd => takeSnapshot env i.daprdPID i.daprdLogPath
  | .all => if target = .daprd then none else takeSnapshot env i.cliPID []

/-- The PIDs that a stop signals. The CLI reaps its children. -/
def stopPIDs (i : Instance) (target : Target) : Except StopError (List Nat) :=
  match target with
  | .app =>
      if i.appPID = 0 then .error (.unsupported "app process unknown".toList) else .ok [i.appPID]
  | .daprd =>
      if i.daprdPID = 0 then .error (.unsupported "daprd process unknown".toList)
      else .ok [i.daprdPID]
  | .all =>
      let pids := if i.cliPID ≠ 0 then [i.cliPID]
        else [i.appPID, i.daprdPID].filter fun p => decide (p ≠ 0)
      if pids = [] then .error (.unsupported "no processes to stop".toList) else .ok pids

/-- Without a process to signal, a stop is not supported. -/
theorem stopPIDs_error {i : Instance} {target : Target} {e : StopError}
    (h : stopPIDs i target = .error e) : ∃ why, e = .unsupported why := by
  unfold stopPIDs at h
  cases target with
  | app => simp only at h; split at h <;> cases h; exact ⟨_, rfl⟩
  | daprd => simp only at h; split at h <;> cases h; exact ⟨_, rfl⟩
  | all =>
      generalize (if i.cliPID ≠ 0 then [i.cliPID]
        else [i.appPID, i.daprdPID].filter fun p => decide (p ≠ 0)) = pids at h
      simp only at h
      split at h <;> cases h
      exact ⟨_, rfl⟩

/-- Whether a stop is recorded: there is something to signal, and it is no orphan. -/
def recorded (i : Instance) (target : Target) : Bool :=
  match stopPIDs i target with
  | .error _ => false
  | .ok _ => !i.sidecarOrphaned

/-- `standaloneStop`. The stop is recorded before anything is signalled. -/
def standaloneStop (env : ProcEnv) (r : Registry) (i : Instance)
    (h : inContainer i.source = false) (target : Target) : Except StopError Unit × Registry :=
  match stopPIDs i target with
  | .error e => (.error e, r)
  | .ok pids =>
      (signalAll env pids,
        if i.sidecarOrphaned then r else r.recordStop i h (snapshots env i target))

/-- What a stop leaves of the registry. -/
theorem standaloneStop_snd (env : ProcEnv) (r : Registry) (i : Instance)
    (h : inContainer i.source = false) (target : Target) :
    (standaloneStop env r i h target).2 =
      if recorded i target then r.recordStop i h (snapshots env i target) else r := by
  unfold standaloneStop recorded
  cases stopPIDs i target with
  | error e => rfl
  | ok pids => cases i.sidecarOrphaned <;> rfl

theorem get_put_registry (r : Registry) (e : Entry) (k : Str) :
    (r.put e).entries.get k = if k = e.key then some e else r.entries.get k := by
  by_cases hk : k = e.key
  · rw [if_pos hk, hk]
    exact Dict.get_put_self _ _ _
  · rw [if_neg hk]
    exact Dict.get_put_of_ne _ _ hk

/-- What `RecordStop` writes: the instance, with the new snapshots over the old ones. -/
theorem get_recordStop (r : Registry) (i : Instance) (h : inContainer i.source = false)
    (snaps : Target → Option ProcSnapshot) (k : Str) :
    (r.recordStop i h snaps).entries.get k =
      if k = i.instanceKey then
        some ⟨i, fun t => (snaps t).or ((r.entries.get i.instanceKey).bind fun e => e.procs t), h⟩
      else r.entries.get k := by
  unfold Registry.recordStop
  cases he : r.entries.get i.instanceKey with
  | none =>
      simp only [Option.bind_none, Option.or_none]
      exact get_put_registry r ⟨i, snaps, h⟩ k
  | some e => exact get_put_registry r ⟨i, fun t => (snaps t).or (e.procs t), h⟩ k

/-- **The entries after a stop**: of the instance what was recorded, with what was there before
    under it; of others what was there. -/
theorem get_standaloneStop {env : ProcEnv} {r : Registry} {i : Instance}
    {h : inContainer i.source = false} {target : Target} {k : Str} {e' : Entry}
    (he' : (standaloneStop env r i h target).2.entries.get k = some e') :
    r.entries.get k = some e' ∧ (k = i.instanceKey → recorded i target = false) ∨
      k = i.instanceKey ∧ recorded i target = true ∧ e'.inst = i ∧
        ∀ t s, e'.procs t = some s → snapshots env i target t = some s ∨
          ∃ e, r.entries.get i.instanceKey = some e ∧ e.procs t = some s := by
  rw [standaloneStop_snd] at he'
  split at he'
  · rename_i hrec
    rw [get_recordStop] at he'
    split at he'
    · rename_i hk
      cases he'
      refine .inr ⟨hk, hrec, rfl, fun t s hs => ?_⟩
      rcases Option.or_eq_some_iff.mp hs with hnew | ⟨-, hold⟩
      · exact .inl hnew
      · exact .inr (Option.bind_eq_some_iff.mp hold)
    · rename_i hk
      exact .inl ⟨he', fun he => absurd he hk⟩
  · rename_i hrec
    exact .inl ⟨he', fun _ => Bool.eq_false_of_not_eq_true hrec⟩

/-! ## 3. `Do` -/

/-- `composeTargets` of a stop: the app goes down before its sidecar. -/
def composeTargets (i : Instance) (target : Target) : Except StopError (List Str) :=
  match target with
  | .app =>
      if i.appContainerID = [] then .error (.unsupported "no app container".toList)
      else .ok [i.appContainerID]
  | .daprd =>
      if i.daprdContainerID = [] then .error (.unsupported "no daprd container".toList)
      else .ok [i.daprdContainerID]
  | .all =>
      let ids := [i.appContainerID, i.daprdContainerID].filter fun c => decide (c ≠ [])
      if ids = [] then .error (.unsupported "no containers".toList) else .ok ids

theorem composeTargets_error {i : Instance} {target : Target} {e : StopError}
    (h : composeTargets i target = .error e) : ∃ why, e = .unsupported why := by
  unfold composeTargets at h
  cases target <;> simp only at h <;> split at h <;> cases h <;> exact ⟨_, rfl⟩

/-- `doCompose`; `run` is the container runtime, if there is one. -/
def doCompose (run : Option (Str → Bool)) (i : Instance) (target : Target) :
    Except StopError Unit :=
  match run with
  | none => .error .runtimeUnavailable
  | some run =>
      match composeTargets i target with
      | .error e => .error e
      | .ok ids =>
          match ids.find? fun c => !run c with
          | some c => .error (.runtime c)
          | none => .ok ()

/-- The target of a stop outside containers: without Aspire the sidecar is not stopped alone. -/
def hostTarget (i : Instance) (target : Target) : Target :=
  if !i.isAspire && decide (target = .daprd) then .all else target

/-- `Do` with the action `stop`, on an instance that was found. -/
def stopInstance (env : ProcEnv) (run : Option (Str → Bool)) (r : Registry) (i : Instance)
    (target : Target) : Except StopError Unit × Registry :=
  if h : inContainer i.source = true then
    (if i.source = .compose then doCompose run i target
      else .error (.unsupported "testcontainers-managed app".toList), r)
  else standaloneStop env r i (Bool.eq_false_of_not_eq_true h) (hostTarget i target)

/-- `Do` with the action `stop`. The instance is the overlay's. -/
def doStop (env : ProcEnv) (run : Option (Str → Bool)) (alive : Nat → Bool) (live : List Instance)
    (r : Registry) (key : Str) (target : Target) : Except StopError Unit × Registry :=
  match overlayGet alive live r key with
  | none => (.error (.notFound key), r)
  | some (i, r') => stopInstance env run r' i target

/-! ## 4. What `Get` gives a stop to work on -/

/-- Which instance `Get` gives: a live one against its entry, or a stopped one. -/
theorem overlayGet_cases {alive : Nat → Bool} {live : List Instance} {r r' : Registry} {key : Str}
    {i : Instance} (h : overlayGet alive live r key = some (i, r')) :
    (∃ j ∈ live, i = (applyEntry r j).1 ∧ r' = (applyEntry r j).2) ∨
      ∃ e, r.entries.get key = some e ∧ i = synthesize alive e ∧ r' = r := by
  unfold overlayGet at h
  split at h
  · rename_i j hj
    have heq := Option.some.inj h
    exact .inl ⟨j, mem_of_get hj, (congrArg Prod.fst heq).symm, (congrArg Prod.snd heq).symm⟩
  · obtain ⟨e, he, heq⟩ := Option.map_eq_some_iff.mp h
    rw [Registry.get_eq] at he
    exact .inr ⟨e, he, (congrArg Prod.fst heq).symm, (congrArg Prod.snd heq).symm⟩

theorem shrinks_overlayGet {alive : Nat → Bool} {live : List Instance} {r r' : Registry}
    {key : Str} {i : Instance} (h : overlayGet alive live r key = some (i, r')) :
    Registry.Shrinks r' r := by
  rcases overlayGet_cases h with ⟨j, -, -, hr⟩ | ⟨e, -, -, hr⟩
  · rw [hr]
    exact shrinks_applyEntry r j
  · rw [hr]
    exact .refl r

/-- The PID under which the scan sees the process of a target. -/
def pidOf (i : Instance) : Target → Nat
  | .app => i.appPID
  | .daprd => i.daprdPID
  | .all => i.cliPID

theorem procs_dropStale {r : Registry} {key : Str} {t : Target} {snap : Option ProcSnapshot}
    {pid : Nat} {e : Entry} (hr : restarted snap pid = true)
    (h : (dropStale r key t snap pid).entries.get key = some e) : e.procs t = none := by
  rw [dropStale, if_pos hr, Registry.get_dropTarget, if_pos rfl] at h
  obtain ⟨e₀, -, hw⟩ := Option.bind_eq_some_iff.mp h
  split at hw
  · cases hw
  · cases hw
    exact if_pos rfl

/-- **A snapshot that survives a look at the live instance** is of a process that has not come
    back under another PID. -/
theorem not_restarted_applyEntry {r : Registry} {i : Instance} (hi : inContainer i.source = false)
    {e' : Entry} (h : (applyEntry r i).2.entries.get i.instanceKey = some e') {t : Target}
    {s : ProcSnapshot} (hs : e'.procs t = some s) : restarted (some s) (pidOf i t) = false := by
  obtain ⟨e, he, -, hp⟩ := shrinks_applyEntry r i _ _ h
  have hsnap : e.procs t = some s := hp t s hs
  refine Bool.eq_false_of_not_eq_true fun hr => ?_
  rw [applyEntry_snd, he] at h
  simp only [hi, Bool.false_eq_true, if_false] at h
  rw [← hsnap] at hr
  -- the drop of the target itself, and what the drops after it leave
  cases t with
  | app =>
      rw [procs_dropStale hr h] at hs
      cases hs
  | all =>
      obtain ⟨e₂, he₂, -, hp₂⟩ := shrinks_dropStale _ _ _ _ _ _ _ h
      have hnone := procs_dropStale hr he₂
      rw [hp₂ _ s hs] at hnone
      cases hnone
  | daprd =>
      obtain ⟨e₂, he₂, -, hp₂⟩ := shrinks_dropStale _ _ _ _ _ _ _ h
      obtain ⟨e₁, he₁, -, hp₁⟩ := shrinks_dropStale _ _ _ _ _ _ _ he₂
      have hnone := procs_dropStale hr he₁
      rw [hp₁ _ s (hp₂ _ s hs)] at hnone
      cases hnone

end DevDashboard.Lifecycle
