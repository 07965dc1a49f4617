/-
  File:      DevDashboard/Lifecycle/Failures.lean
  Subject:   STOPS THAT FAIL. A run of stops, process exits, restarts under new PIDs and polls; what
             the overlay shows of an app after a stop of it could not signal a process.

  A stop is recorded before anything is signalled, and the overlay shows an app as stopped for as
  long as its snapshot stands. So a failed stop must not leave a snapshot of the app.

  * `Standing` -- a failed stop whose process, and the app's process of then, are still alive;
  * `Clean` -- the stops that leave no snapshot of the app beside a standing failure;
  * `live_not_shown_stopped` -- in a run of clean stops no app with a standing failure is shown as
    stopped;
  * `failed_stop_shown_stopped` -- one stop that is not clean is enough.
-/
import DevDashboard.Lifecycle.Manager
import DevDashboard.Lib.Machine

namespace DevDashboard.Lifecycle

open Lib Discovery
open Cmd (Source)

/-! ## 1. Runs -/

/-- A stop of the instance `key` that could not signal `pid`; `appPID` is the process of the app at
    that time. -/
structure Failure where
  key : Str
  appPID : Nat
  pid : Nat

/-- The registry beside the processes: which PIDs are alive, the process of each app outside
    containers (0 if it has none), and the PIDs that were in use. -/
structure World where
  reg : Registry
  alive : Nat → Bool
  proc : Str → Nat
  used : List Nat
  failures : List Failure

/-- A stop and a poll come with the scan they see. -/
inductive Act where
  | stop (live : List Instance) (key : Str) (target : Target) (env : ProcEnv)
      (run : Option (Str → Bool))
  | exit (pid : Nat)
  | restart (key : Str) (pid : Nat)
  | poll (live : List Instance)

/-- What a scan reports of apps outside containers: the PID of the app or none, and an app as
    stopped only if it is. -/
structure Truthful (w : World) (live : List Instance) : Prop where
  pid : ∀ i ∈ live, inContainer i.source = false → i.appPID = 0 ∨ i.appPID = w.proc i.instanceKey
  stopped : ∀ i ∈ live, inContainer i.source = false → i.appStatus = .stopped →
    w.alive (w.proc i.instanceKey) = false

/-- The failure that the answer of a stop is, unless the request was cancelled. -/
def failureOf (w : World) (i : Instance) : Except StopError Unit → List Failure
  | .error (.stopPid pid cause) =>
      if cause = .cancelled then [] else [⟨i.instanceKey, w.proc i.instanceKey, pid⟩]
  | _ => []

/-- The failures after a stop. -/
def stopFailures (w : World) (live : List Instance) (key : Str) (res : Except StopError Unit) :
    List Failure :=
  match overlayGet w.alive live w.reg key with
  | none => []
  | some (i, _) => failureOf w i res

/-- A PID that comes back is a new one. -/
def Allowed (w : World) : Act → Prop
  | .stop live _ _ _ _ => Truthful w live
  | .exit _ => True
  | .restart _ pid => pid ≠ 0 ∧ pid ∉ w.used
  | .poll live => Truthful w live

/-- What an act does. -/
def World.after (w : World) : Act → World
  | .stop live key target env run =>
      let res := doStop env run w.alive live w.reg key target
      let failed := stopFailures w live key res.1
      { w with
        reg := res.2
        used := failed.map Failure.pid ++ w.used
        failures := w.failures ++ failed }
  | .exit pid => { w with alive := fun p => decide (p ≠ pid) && w.alive p }
  | .restart key pid =>
      { w with
        alive := fun p => decide (p = pid) || w.alive p
        proc := fun k => if k = key then pid else w.proc k
        used := pid :: w.used }
  | .poll live => { w with reg := (overlayList w.alive live w.reg).2 }

def World.Step (w : World) (a : Act) (w' : World) : Prop := Allowed w a ∧ w' = w.after a

/-- Nothing was stopped yet. -/
structure World.Start (w : World) : Prop where
  reg : w.reg = Registry.new
  failures : w.failures = []
  used : ∀ k, w.proc k = 0 ∨ w.proc k ∈ w.used

/-- The process that could not be signalled is still alive, and the app still is what it was. -/
structure Standing (w : World) (f : Failure) : Prop where
  pid : w.alive f.pid = true
  app : f.appPID ≠ 0
  proc : w.proc f.key = f.appPID
  alive : w.alive f.appPID = true

/-- **The stops that keep the law**: where a failure stands for the app of a recorded stop, of this
    stop or of one before, the stop takes no snapshot of the app, and the instance it records has
    the app's own PID. -/
def Clean (w : World) : Act → Prop
  | .stop live key target env run =>
      ∀ i r', overlayGet w.alive live w.reg key = some (i, r') → inContainer i.source = false →
        recorded i (hostTarget i target) = true →
        (∃ f ∈ w.failures ++ failureOf w i (doStop env run w.alive live w.reg key target).1,
          f.key = i.instanceKey ∧ Standing w f) →
        snapshots env i (hostTarget i target) .app = none ∧ i.appPID = w.proc i.instanceKey
  | _ => True

/-! ## 2. What a stop does -/

theorem doStop_of_get {env : ProcEnv} {run : Option (Str → Bool)} {alive : Nat → Bool}
    {live : List Instance} {r r' : Registry} {key : Str} {i : Instance} (target : Target)
    (h : overlayGet alive live r key = some (i, r')) :
    doStop env run alive live r key target = stopInstance env run r' i target := by
  rw [doStop, h]

theorem doCompose_ne_stopPid {run : Option (Str → Bool)} {i : Instance} {target : Target}
    {pid : Nat} {cause : SignalError} : doCompose run i target ≠ .error (.stopPid pid cause) := by
  intro h
  unfold doCompose at h
  cases run with
  | none => cases h
  | some run =>
      simp only at h
      cases ht : composeTargets i target with
      | error e =>
          obtain ⟨why, rfl⟩ := composeTargets_error ht
          rw [ht] at h
          cases h
      | ok ids =>
          rw [ht] at h
          simp only at h
          split at h <;> cases h

/-- Of a container, nothing is recorded and no signal fails. -/
theorem stopInstance_container {env : ProcEnv} {run : Option (Str → Bool)} {r : Registry}
    {i : Instance} {target : Target} (hi : inContainer i.source = true) (w : World) :
    (stopInstance env run r i target).2 = r ∧
      failureOf w i (stopInstance env run r i target).1 = [] := by
  unfold stopInstance
  rw [dif_pos hi]
  refine ⟨rfl, ?_⟩
  split
  · cases hc : doCompose run i target with
    | ok u => rfl
    | error e =>
        cases e with
        | stopPid pid cause => exact absurd hc doCompose_ne_stopPid
        | _ => rfl
  · rfl

/-- A stop outside containers. -/
theorem stopInstance_host {env : ProcEnv} {run : Option (Str → Bool)} {r : Registry}
    {i : Instance} {target : Target} (hi : inContainer i.source = false) :
    stopInstance env run r i target = standaloneStop env r i hi (hostTarget i target) := by
  unfold stopInstance
  rw [dif_neg (by simp [hi])]

/-- A failed signal that is not recorded is of an orphan. -/
theorem orphaned_of_failure {env : ProcEnv} {r : Registry} {i : Instance}
    {hi : inContainer i.source = false} {target : Target} {w : World} {f : Failure}
    (hf : f ∈ failureOf w i (standaloneStop env r i hi target).1)
    (hrec : recorded i target = false) : i.sidecarOrphaned = true := by
  unfold standaloneStop at hf
  unfold recorded at hrec
  cases hp : stopPIDs i target with
  | ok pids =>
      rw [hp] at hrec
      simpa using hrec
  | error e =>
      obtain ⟨why, rfl⟩ := stopPIDs_error hp
      rw [hp] at hf
      cases hf

theorem not_orphaned_of_recorded {i : Instance} {target : Target}
    (h : recorded i target = true) : i.sidecarOrphaned = false := by
  unfold recorded at h
  split at h
  · cases h
  · simpa using h

theorem of_mem_failureOf {w : World} {i : Instance} {res : Except StopError Unit} {f : Failure}
    (h : f ∈ failureOf w i res) : f.key = i.instanceKey ∧ f.appPID = w.proc i.instanceKey := by
  unfold failureOf at h
  split at h
  · split at h
    · cases h
    · rw [List.mem_singleton.mp h]
      exact ⟨rfl, rfl⟩
  · cases h

/-! ## 3. The invariant -/

/-- What holds along a run of clean stops. -/
structure Inv (w : World) : Prop where
  usedProc : ∀ k, w.proc k = 0 ∨ w.proc k ∈ w.used
  usedEntry : ∀ k e, w.reg.entries.get k = some e → e.inst.appPID = 0 ∨ e.inst.appPID ∈ w.used
  usedFailure : ∀ f ∈ w.failures, f.pid ∈ w.used ∧ (f.appPID = 0 ∨ f.appPID ∈ w.used)
  orphan : ∀ k e, w.reg.entries.get k = some e → e.inst.sidecarOrphaned = false
  status : ∀ k e, w.reg.entries.get k = some e → e.inst.appPID ≠ 0 →
    w.alive e.inst.appPID = true → e.inst.appStatus ≠ .stopped
  clean : ∀ f ∈ w.failures, Standing w f → ∀ e, w.reg.entries.get f.key = some e →
    e.procs .app = none ∧ e.inst.appPID = f.appPID

theorem Inv.start {w : World} (h : w.Start) : Inv w where
  usedProc := h.used
  usedEntry k e he := by rw [h.reg] at he; cases he
  usedFailure f hf := by rw [h.failures] at hf; cases hf
  orphan k e he := by rw [h.reg] at he; cases he
  status k e he := by rw [h.reg] at he; cases he
  clean f hf := by rw [h.failures] at hf; cases hf

/-- The invariant speaks of what entries there are, so fewer of them keep it. -/
theorem Inv.shrink {w : World} (h : Inv w) {r : Registry} (hr : Registry.Shrinks r w.reg) :
    Inv { w with reg := r } where
  usedProc := h.usedProc
  usedEntry k e' he' := by
    obtain ⟨e, he, hi, -⟩ := hr k e' he'
    rw [hi]
    exact h.usedEntry k e he
  usedFailure := h.usedFailure
  orphan k e' he' := by
    obtain ⟨e, he, hi, -⟩ := hr k e' he'
    rw [hi]
    exact h.orphan k e he
  status k e' he' := by
    obtain ⟨e, he, hi, -⟩ := hr k e' he'
    rw [hi]
    exact h.status k e he
  clean f hf hs e' he' := by
    obtain ⟨e, he, hi, hp⟩ := hr _ e' he'
    obtain ⟨hnone, hpid⟩ := h.clean f hf ⟨hs.pid, hs.app, hs.proc, hs.alive⟩ e he
    refine ⟨Option.eq_none_iff_forall_ne_some.mpr fun s hsnap => ?_, hi ▸ hpid⟩
    rw [hp .app s hsnap] at hnone
    cases hnone

section Get

variable {w : World} {live : List Instance} {key : Str} {i : Instance} {r' : Registry}

theorem source_applyEntry (r : Registry) (j : Instance) :
    (applyEntry r j).1.source = j.source ∧
      (applyEntry r j).1.sidecarOrphaned = j.sidecarOrphaned := by
  rw [applyEntry_fst]
  split <;> exact ⟨rfl, rfl⟩

theorem source_synthesize (alive : Nat → Bool) (e : Entry) :
    (synthesize alive e).source = e.inst.source ∧
      (synthesize alive e).sidecarOrphaned = e.inst.sidecarOrphaned := by
  unfold synthesize
  split <;> exact ⟨rfl, rfl⟩

/-- A live app with a PID is shown as it was scanned. -/
theorem applyEntry_of_pid {r : Registry} {j : Instance} (h : (applyEntry r j).1.appPID ≠ 0) :
    (applyEntry r j).1 = j ∧ stopsApp (r.entries.get j.instanceKey) j = false := by
  rw [applyEntry_fst] at h ⊢
  split at h
  · exact absurd rfl h
  · rename_i hs
    exact ⟨if_neg hs, Bool.eq_false_of_not_eq_true hs⟩

/-- A stopped app with a PID has no snapshot of its process, and that is alive. -/
theorem synthesize_of_pid {alive : Nat → Bool} {e : Entry}
    (h : (synthesize alive e).appPID ≠ 0) :
    synthesize alive e = withoutSidecar e.inst ∧ e.procs .app = none := by
  unfold synthesize at h ⊢
  split at h
  · exact absurd rfl h
  · rename_i hs
    refine ⟨if_neg hs, ?_⟩
    rw [Bool.or_eq_true, not_or] at hs
    exact Option.not_isSome_iff_eq_none.mp hs.1

/-- The PID that a stop works on was in use. -/
theorem used_of_get (hinv : Inv w) (ht : Truthful w live) (hi : inContainer i.source = false)
    (h : overlayGet w.alive live w.reg key = some (i, r')) :
    i.appPID = 0 ∨ i.appPID ∈ w.used := by
  by_cases h0 : i.appPID = 0
  · exact .inl h0
  · right
    rcases overlayGet_cases h with ⟨j, hj, rfl, -⟩ | ⟨e, he, rfl, -⟩
    · rw [(source_applyEntry _ _).1] at hi
      have hsame := (applyEntry_of_pid h0).1
      rw [hsame] at h0 ⊢
      have hpid := (ht.pid j hj hi).resolve_left h0
      rw [hpid] at h0 ⊢
      exact (hinv.usedProc _).resolve_left h0
    · have hsame := (synthesize_of_pid h0).1
      rw [hsame] at h0 ⊢
      exact (hinv.usedEntry key e he).resolve_left h0

/-- It is not stopped if it is alive. -/
theorem status_of_get (hinv : Inv w) (ht : Truthful w live) (hi : inContainer i.source = false)
    (h : overlayGet w.alive live w.reg key = some (i, r')) (h0 : i.appPID ≠ 0)
    (hal : w.alive i.appPID = true) : i.appStatus ≠ .stopped := by
  rcases overlayGet_cases h with ⟨j, hj, rfl, -⟩ | ⟨e, he, rfl, -⟩
  · rw [(source_applyEntry _ _).1] at hi
    have hsame := (applyEntry_of_pid h0).1
    rw [hsame] at h0 hal ⊢
    intro hst
    rw [(ht.pid j hj hi).resolve_left h0, ht.stopped j hj hi hst] at hal
    cases hal
  · have hsame := (synthesize_of_pid h0).1
    rw [hsame] at h0 hal ⊢
    exact hinv.status key e he h0 hal

/-- It has no snapshot on record. -/
theorem procs_of_get (hi : inContainer i.source = false)
    (h : overlayGet w.alive live w.reg key = some (i, r')) (h0 : i.appPID ≠ 0) {e' : Entry}
    (he' : r'.entries.get i.instanceKey = some e') : e'.procs .app = none := by
  rcases overlayGet_cases h with ⟨j, hj, rfl, rfl⟩ | ⟨e, he, rfl, rfl⟩
  · rw [(source_applyEntry _ _).1] at hi
    rw [key_applyEntry] at he'
    have hstops := (applyEntry_of_pid h0).2
    refine Option.eq_none_iff_forall_ne_some.mpr fun s hs => ?_
    obtain ⟨e, he, -, hp⟩ := shrinks_applyEntry _ j _ _ he'
    -- a snapshot that survived would have the app shown as stopped
    have hfresh : restarted (some s) j.appPID = false := not_restarted_applyEntry hi he' hs
    rw [he] at hstops
    simp [stopsApp, hi, hp .app s hs, hfresh] at hstops
  · rw [key_synthesize, w.reg.keyed key e he, he] at he'
    cases he'
    exact (synthesize_of_pid h0).2

/-- The app of an orphaned sidecar is not alive. -/
theorem dead_of_orphan (hinv : Inv w) (ht : Truthful w live) (hi : inContainer i.source = false)
    (h : overlayGet w.alive live w.reg key = some (i, r')) (ho : i.sidecarOrphaned = true) :
    w.alive (w.proc i.instanceKey) = false := by
  rcases overlayGet_cases h with ⟨j, hj, rfl, -⟩ | ⟨e, he, rfl, -⟩
  · rw [(source_applyEntry _ _).1] at hi
    rw [(source_applyEntry _ _).2] at ho
    rw [key_applyEntry]
    exact ht.stopped j hj hi (j.orphan_stopped ho)
  · rw [(source_synthesize _ _).2, hinv.orphan key e he] at ho
    cases ho

end Get

/-! ## 4. Every step keeps it -/

theorem shrinks_overlayList (alive : Nat → Bool) (live : List Instance) (r : Registry) :
    Registry.Shrinks (overlayList alive live r).2 r := by
  intro k e he
  have hread : (overlayList alive live r).2.entries = (applyAll r (list live)).2.entries :=
    entries_keepShown _ _
  rw [hread] at he
  exact shrinks_applyAll r (list live) k e he

/-- Nothing that was dead comes back. -/
theorem Standing.of_exit {w : World} {pid : Nat} {f : Failure}
    (h : Standing (w.after (.exit pid)) f) : Standing w f where
  pid := (Bool.and_eq_true _ _ ▸ h.pid).2
  app := h.app
  proc := h.proc
  alive := (Bool.and_eq_true _ _ ▸ h.alive).2

theorem Inv.exit {w : World} (h : Inv w) (pid : Nat) : Inv (w.after (.exit pid)) where
  usedProc := h.usedProc
  usedEntry := h.usedEntry
  usedFailure := h.usedFailure
  orphan := h.orphan
  status k e he h0 hal := h.status k e he h0 (Bool.and_eq_true _ _ ▸ hal).2
  clean f hf hs := h.clean f hf hs.of_exit

/-- A PID that was in use is no new one. -/
theorem alive_of_restart {w : World} {key : Str} {pid p : Nat} (hnew : pid ∉ w.used)
    (hp : p ∈ w.used) (h : (w.after (.restart key pid)).alive p = true) : w.alive p = true := by
  rcases (Bool.or_eq_true _ _).mp h with hd | hd
  · exact absurd (of_decide_eq_true hd ▸ hp) hnew
  · exact hd

theorem Inv.restart {w : World} (h : Inv w) {key : Str} {pid : Nat} (hnew : pid ∉ w.used) :
    Inv (w.after (.restart key pid)) where
  usedProc k := by
    show (if k = key then pid else w.proc k) = 0 ∨ (if k = key then pid else w.proc k) ∈ pid :: w.used
    split
    · exact .inr List.mem_cons_self
    · exact (h.usedProc k).imp id (List.mem_cons_of_mem pid)
  usedEntry k e he := (h.usedEntry k e he).imp id (List.mem_cons_of_mem pid)
  usedFailure f hf := ⟨List.mem_cons_of_mem pid (h.usedFailure f hf).1,
    (h.usedFailure f hf).2.imp id (List.mem_cons_of_mem pid)⟩
  orphan := h.orphan
  status k e he h0 hal :=
    h.status k e he h0 (alive_of_restart hnew ((h.usedEntry k e he).resolve_left h0) hal)
  clean f hf hs := by
    obtain ⟨hpid, happ⟩ := h.usedFailure f hf
    have hused := happ.resolve_left hs.app
    -- the app of the failure has not been restarted: its PID would be the new one
    have hproc : w.proc f.key = f.appPID := by
      have hsame : (if f.key = key then pid else w.proc f.key) = f.appPID := hs.proc
      split at hsame
      · exact absurd (hsame ▸ hused) hnew
      · exact hsame
    exact h.clean f hf ⟨alive_of_restart hnew hpid hs.pid, hs.app, hproc,
      alive_of_restart hnew hused hs.alive⟩

/-- The world after a stop of an instance outside containers. -/
theorem after_stop {w : World} {live : List Instance} {key : Str} {target : Target} {env : ProcEnv}
    {run : Option (Str → Bool)} {i : Instance} {r' : Registry}
    (hget : overlayGet w.alive live w.reg key = some (i, r'))
    (hi : inContainer i.source = false) :
    w.after (.stop live key target env run) =
      { w with
        reg := (standaloneStop env r' i hi (hostTarget i target)).2
        used := (failureOf w i (standaloneStop env r' i hi (hostTarget i target)).1).map
          Failure.pid ++ w.used
        failures := w.failures ++
          failureOf w i (standaloneStop env r' i hi (hostTarget i target)).1 } := by
  have hdo : doStop env run w.alive live w.reg key target =
      standaloneStop env r' i hi (hostTarget i target) :=
    (doStop_of_get target hget).trans (stopInstance_host hi)
  simp only [World.after, stopFailures, hget, hdo]

theorem Inv.stop_host {w : World} (h : Inv w) {live : List Instance} {key : Str}
    {target : Target} {env : ProcEnv} {run : Option (Str → Bool)} (ht : Truthful w live)
    (hc : Clean w (.stop live key target env run)) {i : Instance} {r' : Registry}
    (hget : overlayGet w.alive live w.reg key = some (i, r'))
    (hi : inContainer i.source = false) : Inv (w.after (.stop live key target env run)) := by
  have hclean := hc i r' hget hi
  rw [doStop_of_get target hget, stopInstance_host hi] at hclean
  rw [after_stop hget hi]
  have hold := h.shrink (shrinks_overlayGet hget)
  generalize hF : failureOf w i (standaloneStop env r' i hi (hostTarget i target)).1 = F at hclean ⊢
  refine ⟨fun k => ?_, fun k e' he' => ?_, fun f hf => ?_, fun k e' he' => ?_,
    fun k e' he' h0 hal => ?_, fun f hf hs e' he' => ?_⟩
  · exact (h.usedProc k).imp id (List.mem_append_right _)
  · rcases get_standaloneStop he' with ⟨he, -⟩ | ⟨-, -, hinst, -⟩
    · exact (hold.usedEntry k e' he).imp id (List.mem_append_right _)
    · rw [hinst]
      exact (used_of_get h ht hi hget).imp id (List.mem_append_right _)
  · rcases List.mem_append.mp hf with hf | hf
    · exact ⟨List.mem_append_right _ (h.usedFailure f hf).1,
        (h.usedFailure f hf).2.imp id (List.mem_append_right _)⟩
    · refine ⟨List.mem_append_left _ (List.mem_map_of_mem hf), ?_⟩
      rw [(of_mem_failureOf (hF ▸ hf)).2]
      exact (h.usedProc _).imp id (List.mem_append_right _)
  · rcases get_standaloneStop he' with ⟨he, -⟩ | ⟨-, hrec, hinst, -⟩
    · exact hold.orphan k e' he
    · rw [hinst]
      exact not_orphaned_of_recorded hrec
  · rcases get_standaloneStop he' with ⟨he, -⟩ | ⟨-, -, hinst, -⟩
    · exact hold.status k e' he h0 hal
    · rw [hinst] at h0 hal ⊢
      exact status_of_get h ht hi hget h0 hal
  · -- the failures of before stand as they did, the entry is the old one or the recorded one
    have hs' : Standing w f := ⟨hs.pid, hs.app, hs.proc, hs.alive⟩
    rcases get_standaloneStop he' with ⟨he, hnot⟩ | ⟨hk, hrec, hinst, hsnaps⟩
    · rcases List.mem_append.mp hf with hf | hf
      · exact hold.clean f hf ⟨hs.pid, hs.app, hs.proc, hs.alive⟩ e' he
      · -- a failed signal without a record is of an orphan, whose app is dead
        rw [← hF] at hf
        have horph := orphaned_of_failure hf (hnot (of_mem_failureOf hf).1)
        have hdead := dead_of_orphan h ht hi hget horph
        rw [← (of_mem_failureOf hf).1, hs'.proc, hs'.alive] at hdead
        cases hdead
    · obtain ⟨hnone, hpid⟩ := hclean hrec ⟨f, hf, hk, hs'⟩
      have happ : i.appPID = f.appPID := by rw [hpid, ← hk, hs'.proc]
      refine ⟨Option.eq_none_iff_forall_ne_some.mpr fun s hsnap => ?_, by rw [hinst, happ]⟩
      rcases hsnaps .app s hsnap with hnew | ⟨e, he, hp⟩
      · rw [hnone] at hnew
        cases hnew
      · rw [procs_of_get hi hget (happ ▸ hs'.app) he] at hp
        cases hp

/-- **Every clean step keeps the invariant.** -/
theorem Inv.step {w w' : World} {a : Act} (h : Inv w) (hc : Clean w a) (hs : World.Step w a w') :
    Inv w' := by
  obtain ⟨hall, rfl⟩ := hs
  cases a with
  | exit pid => exact h.exit pid
  | restart key pid => exact h.restart hall.2
  | poll live => exact h.shrink (shrinks_overlayList _ _ _)
  | stop live key target env run =>
      cases hget : overlayGet w.alive live w.reg key with
      | none =>
          have hsame : w.after (.stop live key target env run) = w := by
            simp [World.after, stopFailures, doStop, hget]
          rwa [hsame]
      | some x =>
          obtain ⟨i, r'⟩ := x
          cases hi : inContainer i.source with
          | false => exact h.stop_host hall hc hget hi
          | true =>
              obtain ⟨hreg, hfail⟩ := @stopInstance_container env run r' i target hi w
              have hsame : w.after (.stop live key target env run) = { w with reg := r' } := by
                simp [World.after, stopFailures, hget, doStop_of_get target hget, hreg, hfail]
              rw [hsame]
              exact h.shrink (shrinks_overlayGet hget)

/-! ## 5. What a listing shows -/

/-- An entry without a snapshot of the app, whose app is alive, has it shown as it was. -/
theorem Inv.shown {w : World} (h : Inv w) {live : List Instance} (ht : Truthful w live)
    {f : Failure} (hf : f ∈ w.failures) (hs : Standing w f) {x : Instance}
    (hx : x ∈ (overlayList w.alive live w.reg).1) (hhost : inContainer x.source = false)
    (hk : x.instanceKey = f.key) : x.appStatus ≠ .stopped := by
  have hx' := (sortInstances_perm _).mem_iff.mp hx
  rcases List.mem_append.mp (mem_of_mem_keepShown hx') with hm | hm
  · obtain ⟨i, hi, r', hr', rfl⟩ := exists_applyEntry_of_mem hm
    rw [key_applyEntry] at hk
    rw [(source_applyEntry _ _).1] at hhost
    have hold := h.shrink hr'
    have hstops : stopsApp (r'.entries.get i.instanceKey) i = false := by
      cases he : r'.entries.get i.instanceKey with
      | none => rfl
      | some e =>
          have hnone := (hold.clean f hf ⟨hs.pid, hs.app, hs.proc, hs.alive⟩ e (hk ▸ he)).1
          simp [stopsApp, hnone]
    rw [applyEntry_fst, hstops]
    intro hst
    have hdead := ht.stopped i (mem_list.mp hi) hhost hst
    rw [hk, hs.proc, hs.alive] at hdead
    cases hdead
  · obtain ⟨e, he, -, rfl⟩ := mem_ghosts.mp hm
    rw [key_synthesize] at hk
    have hold := h.shrink (shrinks_applyAll w.reg (list live))
    obtain ⟨hnone, hpid⟩ := hold.clean f hf ⟨hs.pid, hs.app, hs.proc, hs.alive⟩ e (hk ▸ he)
    have hne : e.inst.appPID ≠ 0 := hpid ▸ hs.app
    have hal : w.alive e.inst.appPID = true := hpid ▸ hs.alive
    have hlive : synthesize w.alive e = withoutSidecar e.inst := by
      simp [synthesize, hnone, hne, hal]
    rw [hlive]
    exact hold.status e.key e he hne hal

/-- **A live app is not shown as stopped after a failed stop**, in every run whose stops are clean:
    whatever snapshots, signals, exits, restarts and polls came before. -/
theorem live_not_shown_stopped {w₀ w : World} {l : List (World × Act)} (h0 : w₀.Start)
    (hrun : Trace World.Step w₀ l w) (hclean : ∀ p ∈ l, Clean p.1 p.2) (live : List Instance)
    (ht : Truthful w live) :
    ∀ f ∈ w.failures, Standing w f → ∀ x ∈ (overlayList w.alive live w.reg).1,
      inContainer x.source = false → x.instanceKey = f.key → x.appStatus ≠ .stopped := by
  have hinv : Inv w :=
    hrun.inv_of (Inv.start h0) (fun w a w' hi hc hs => Inv.step hi hc hs) hclean
  exact fun f hf hs x hx hhost hk => hinv.shown ht hf hs hx hhost hk

/-- The app `a` runs as process 7 beside its sidecar 8. -/
def runningA : Instance where
  appID := "a".toList
  instanceKey := "a".toList
  source := .standalone
  appStatus := .running
  daprdStatus := .running
  appPID := 7
  daprdPID := 8
  key_host := key_host_a
  pid_container h := by cases h
  orphan_stopped := orphan_running

def worldA : World where
  reg := Registry.new
  alive p := decide (p = 7)
  proc k := if k = "a".toList then 7 else 0
  used := [7]
  failures := []

/-- Process 7 cannot be signalled; whether it can be looked at is `seen`. -/
def deafEnv (seen : Bool) : ProcEnv where
  snapshot pid := if seen then some { pid := pid } else none
  terminate _ := false
  looks _ := []
  aliveAfter _ := true
  kill _ := false
  snapshot_pid := snapshot_pid_of_seen seen

/-- A stop of the app that fails. -/
def stopA (seen : Bool) : Act := .stop [runningA] "a".toList .app (deafEnv seen) none

theorem worldA_start : worldA.Start where
  reg := rfl
  failures := rfl
  used k := by
    show (if k = "a".toList then 7 else 0) = 0 ∨ (if k = "a".toList then 7 else 0) ∈ [7]
    split
    · exact .inr List.mem_cons_self
    · exact .inl rfl

theorem truthful_runningA {w : World} (hp : w.proc "a".toList = 7) : Truthful w [runningA] where
  pid i hi _ := by
    rw [List.mem_singleton.mp hi]
    exact .inr hp.symm
  stopped i hi _ hst := by
    rw [List.mem_singleton.mp hi] at hst
    cases hst

theorem trace_stopA (seen : Bool) :
    Trace World.Step worldA [(worldA, stopA seen)] (worldA.after (stopA seen)) :=
  Trace.start.next ⟨truthful_runningA rfl, rfl⟩

theorem failures_stopA (seen : Bool) :
    (worldA.after (stopA seen)).failures = [⟨"a".toList, 7, 7⟩] := by
  cases seen <;> rfl

theorem standing_stopA (seen : Bool) : Standing (worldA.after (stopA seen)) ⟨"a".toList, 7, 7⟩ where
  pid := rfl
  app := by decide
  proc := rfl
  alive := rfl

/-- A failed stop without a snapshot: the app is shown as it is. -/
theorem live_not_shown_stopped_a :
    (∃ f ∈ (worldA.after (stopA false)).failures, Standing (worldA.after (stopA false)) f) ∧
      ∀ f ∈ (worldA.after (stopA false)).failures, Standing (worldA.after (stopA false)) f →
        ∀ x ∈ (overlayList (worldA.after (stopA false)).alive [runningA]
          (worldA.after (stopA false)).reg).1,
          inContainer x.source = false → x.instanceKey = f.key → x.appStatus ≠ .stopped := by
  refine ⟨⟨⟨"a".toList, 7, 7⟩, ?_, standing_stopA false⟩, ?_⟩
  · rw [failures_stopA]
    exact List.mem_singleton_self _
  · refine live_not_shown_stopped worldA_start (trace_stopA false) (fun p hp => ?_) [runningA]
      (truthful_runningA rfl)
    rw [List.mem_singleton.mp hp]
    intro i r' hget _ _ _
    have hi : i = runningA := (congrArg Prod.fst (Option.some.inj hget)).symm
    subst hi
    exact ⟨rfl, rfl⟩

/-- **A failed stop with a snapshot of the app**: process 7 was not signalled and lives on, and the
    next poll, which sees it under the same PID, shows the app as stopped. -/
theorem failed_stop_shown_stopped :
    worldA.Start ∧ Trace World.Step worldA [(worldA, stopA true)] (worldA.after (stopA true)) ∧
      Truthful (worldA.after (stopA true)) [runningA] ∧
      ∃ f ∈ (worldA.after (stopA true)).failures, Standing (worldA.after (stopA true)) f ∧
        ∃ x ∈ (overlayList (worldA.after (stopA true)).alive [runningA]
          (worldA.after (stopA true)).reg).1,
          inContainer x.source = false ∧ x.instanceKey = f.key ∧ x.appStatus = .stopped := by
  refine ⟨worldA_start, trace_stopA true, truthful_runningA rfl, ⟨"a".toList, 7, 7⟩, ?_,
    standing_stopA true, stoppedApp runningA, ?_, rfl, rfl, rfl⟩
  · rw [failures_stopA]
    exact List.mem_singleton_self _
  · have hlist : list [runningA] = [runningA] := List.mergeSort_singleton _
    have hshown : (applyEntry (worldA.after (stopA true)).reg runningA).1 = stoppedApp runningA := by
      rw [applyEntry_fst]
      rfl
    refine (sortInstances_perm _).mem_iff.mpr (mem_keepShown_of_not_hidden ?_ ?_)
    · rw [hlist, ← hshown]
      exact List.mem_append_left _ List.mem_cons_self
    · rw [hidden_after_apply]
      exact fun hh => by cases hh.1

end DevDashboard.Lifecycle
