/-
  File:      DevDashboard/Lifecycle/Restarts.lean
  Subject:   ENTRIES AND RESTARTS. A run of stops and polls; what is left of the entry of an
             instance once a poll has seen it under new PIDs.

  An entry goes with its last snapshot, and each snapshot goes when its process is seen under
  another PID. An entry that never had a snapshot does not go at all.

  * `fresh` -- a live instance whose PIDs differ from those of every recorded stop;
  * `Captures` -- the stops that leave an entry with a snapshot;
  * `no_ghost_after_restart` -- in a run of such stops, an instance seen fresh has no entry until
    it is stopped again, and is not listed when it has exited by itself;
  * `bare_entry_stays` -- a stop whose snapshots all fail.
-/
import DevDashboard.Lifecycle.Manager
import DevDashboard.Lib.Machine

namespace DevDashboard.Lifecycle

open Lib Discovery
open Cmd (Source)

/-! ## 1. Runs -/

/-- The registry, the instances as they were at each recorded stop, and the keys of those seen
    fresh since. -/
structure Watch where
  reg : Registry
  stops : List Instance
  seen : List Str

def Watch.start : Watch := ⟨Registry.new, [], []⟩

inductive Event where
  | stop (i : Instance) (host : inContainer i.source = false) (target : Target) (env : ProcEnv)
  | poll (alive : Nat → Bool) (live : List Instance)

/-- Does a live instance have an app, a daprd and a CLI, each under another PID than at every
    recorded stop of it? -/
def fresh (stops : List Instance) (i : Instance) : Bool :=
  [Target.app, .daprd, .all].all fun t => decide (pidOf i t ≠ 0) &&
    stops.all fun j => decide (j.instanceKey = i.instanceKey → pidOf i t ≠ pidOf j t)

/-- What an event does. -/
def Watch.after (w : Watch) : Event → Watch
  | .stop i host target env =>
      let reg := (standaloneStop env w.reg i host target).2
      if recorded i target then
        ⟨reg, i :: w.stops, w.seen.filter fun k => decide (k ≠ i.instanceKey)⟩
      else { w with reg := reg }
  | .poll alive live =>
      { w with
        reg := (overlayList alive live w.reg).2
        seen := w.seen ++ (live.filter (fresh w.stops)).map Instance.instanceKey }

/-- **The stops that keep the law**: one of the snapshots succeeds, or there is an entry already. -/
def Captures (w : Watch) : Event → Prop
  | .stop i _ target env => recorded i target = true →
      (∃ t, (snapshots env i target t).isSome) ∨ (w.reg.entries.get i.instanceKey).isSome
  | .poll _ _ => True

/-! ## 2. Entries with a snapshot -/

theorem Entry.bare_eq_true_iff {e : Entry} : e.bare = true ↔ ∀ t, e.procs t = none := by
  unfold Entry.bare
  rw [Bool.and_eq_true, Bool.and_eq_true, Option.isNone_iff_eq_none, Option.isNone_iff_eq_none,
    Option.isNone_iff_eq_none]
  constructor
  · intro ⟨⟨ha, hd⟩, hall⟩ t
    cases t with
    | app => exact ha
    | daprd => exact hd
    | all => exact hall
  · exact fun h => ⟨⟨h .app, h .daprd⟩, h .all⟩

/-- No entry is without a snapshot. -/
def Registry.Full (r : Registry) : Prop := ∀ k e, r.entries.get k = some e → e.bare = false

namespace Registry

theorem Full.dropTarget {r : Registry} (h : r.Full) (key : Str) (t : Target) :
    (r.dropTarget key t).Full := by
  intro k e he
  rw [get_dropTarget] at he
  split at he
  · obtain ⟨e₀, -, hw⟩ := Option.bind_eq_some_iff.mp he
    split at hw
    · cases hw
    · rename_i hb
      cases hw
      exact Bool.eq_false_of_not_eq_true hb
  · exact h k e he

theorem Full.dropStale {r : Registry} (h : r.Full) (key : Str) (t : Target)
    (snap : Option ProcSnapshot) (pid : Nat) : (dropStale r key t snap pid).Full := by
  unfold Lifecycle.dropStale
  split
  · exact h.dropTarget key t
  · exact h

theorem Full.applyEntry {r : Registry} (h : r.Full) (i : Instance) : (applyEntry r i).2.Full := by
  rw [applyEntry_snd]
  split
  · exact h
  · split
    · exact h
    · exact ((h.dropStale _ _ _ _).dropStale _ _ _ _).dropStale _ _ _ _

theorem Shrinks.get_none {r' r : Registry} (h : Shrinks r' r) {k : Str}
    (hk : r.entries.get k = none) : r'.entries.get k = none := by
  refine Option.eq_none_iff_forall_ne_some.mpr fun e he => ?_
  obtain ⟨e₀, he₀, -⟩ := h k e he
  rw [hk] at he₀
  cases he₀

end Registry

/-! ## 3. The invariant -/

/-- Every snapshot is of a recorded stop of its instance. -/
def Recorded (stops : List Instance) (r : Registry) : Prop :=
  ∀ k e, r.entries.get k = some e → ∀ t s, e.procs t = some s →
    ∃ j ∈ stops, j.instanceKey = k ∧ pidOf j t = s.pid

theorem Recorded.shrink {stops : List Instance} {r r' : Registry} (h : Recorded stops r)
    (hr : Registry.Shrinks r' r) : Recorded stops r' := by
  intro k e' he' t s hs
  obtain ⟨e, he, -, hp⟩ := hr k e' he'
  exact h k e he t s (hp t s hs)

/-- What holds along a run of stops that capture something. -/
structure Tracked (w : Watch) : Prop where
  snaps : Recorded w.stops w.reg
  full : w.reg.Full
  gone : ∀ k ∈ w.seen, w.reg.entries.get k = none

theorem Tracked.start : Tracked Watch.start where
  snaps k e he := by cases he
  full k e he := by cases he
  gone k hk := by cases hk

theorem pid_of_snapshots {env : ProcEnv} {i : Instance} {target t : Target} {s : ProcSnapshot}
    (h : snapshots env i target t = some s) : s.pid = pidOf i t := by
  have htake : ∀ {pid logPath}, takeSnapshot env pid logPath = some s → s.pid = pid := by
    intro pid logPath hs
    unfold takeSnapshot at hs
    split at hs
    · cases hs
    · obtain ⟨s₀, hs₀, rfl⟩ := Option.map_eq_some_iff.mp hs
      exact env.snapshot_pid pid s₀ hs₀
  cases t with
  | daprd => exact htake h
  | app =>
      simp only [snapshots] at h
      split at h
      · cases h
      · exact htake h
  | all =>
      simp only [snapshots] at h
      split at h
      · cases h
      · exact htake h

theorem Tracked.stop {w : Watch} (h : Tracked w) {i : Instance} {host : inContainer i.source = false}
    {target : Target} {env : ProcEnv} (hc : Captures w (.stop i host target env)) :
    Tracked (w.after (.stop i host target env)) := by
  cases hrec : recorded i target with
  | false =>
      have hsame : w.after (.stop i host target env) = w := by
        simp [Watch.after, standaloneStop_snd, hrec]
      rwa [hsame]
  | true =>
      have hafter : w.after (.stop i host target env) =
          ⟨(standaloneStop env w.reg i host target).2, i :: w.stops,
            w.seen.filter fun k => decide (k ≠ i.instanceKey)⟩ := by
        simp [Watch.after, hrec]
      rw [hafter]
      refine ⟨fun k e' he' t s hs => ?_, fun k e' he' => ?_, fun k hk => ?_⟩
      · rcases get_standaloneStop he' with ⟨he, -⟩ | ⟨hk, -, -, hsnaps⟩
        · obtain ⟨j, hj, hkey, hpid⟩ := h.snaps k e' he t s hs
          exact ⟨j, List.mem_cons_of_mem i hj, hkey, hpid⟩
        · rcases hsnaps t s hs with hnew | ⟨e, he, hp⟩
          · exact ⟨i, List.mem_cons_self, hk.symm, (pid_of_snapshots hnew).symm⟩
          · obtain ⟨j, hj, hkey, hpid⟩ := h.snaps _ e he t s hp
            exact ⟨j, List.mem_cons_of_mem i hj, hkey.trans hk.symm, hpid⟩
      · -- a new snapshot, or one of the entry that was there
        rw [standaloneStop_snd, if_pos hrec, get_recordStop] at he'
        split at he'
        · cases he'
          refine Bool.eq_false_of_not_eq_true fun hb => ?_
          have hnone := Entry.bare_eq_true_iff.mp hb
          rcases hc hrec with ⟨t, ht⟩ | hsome
          · obtain ⟨s, hs⟩ := Option.isSome_iff_exists.mp ht
            have hempty := hnone t
            simp [hs] at hempty
          · obtain ⟨e, he⟩ := Option.isSome_iff_exists.mp hsome
            have hbare : e.bare = true := Entry.bare_eq_true_iff.mpr fun t => by
              have hempty := hnone t
              simp only [he, Option.bind_some, Option.or_eq_none_iff] at hempty
              exact hempty.2
            rw [h.full _ e he] at hbare
            cases hbare
        · exact h.full k e' he'
      · obtain ⟨hseen, hne⟩ := List.mem_filter.mp hk
        rw [standaloneStop_snd, if_pos hrec, get_recordStop, if_neg (of_decide_eq_true hne)]
        exact h.gone k hseen

/-- **A look at a fresh instance takes its entry away.** -/
theorem get_applyEntry_fresh {stops : List Instance} {r : Registry} (hrec : Recorded stops r)
    (hfull : r.Full) {i : Instance} (hi : fresh stops i = true) :
    (applyEntry r i).2.entries.get i.instanceKey = none := by
  have hpids : ∀ t, pidOf i t ≠ 0 ∧
      ∀ j ∈ stops, j.instanceKey = i.instanceKey → pidOf i t ≠ pidOf j t := by
    intro t
    have ht := List.all_eq_true.mp hi t (by cases t <;> simp)
    rw [Bool.and_eq_true] at ht
    exact ⟨of_decide_eq_true ht.1, fun j hj =>
      of_decide_eq_true (List.all_eq_true.mp ht.2 j hj)⟩
  -- the scans of containers know no PID of a daprd
  have hhost : inContainer i.source = false := by
    refine Bool.eq_false_of_not_eq_true fun hc => ?_
    exact (hpids .daprd).1 (i.pid_container hc)
  refine Option.eq_none_iff_forall_ne_some.mpr fun e' he' => ?_
  have hbare : e'.bare = true := by
    refine Entry.bare_eq_true_iff.mpr fun t => Option.eq_none_iff_forall_ne_some.mpr fun s hs => ?_
    obtain ⟨j, hj, hkey, hpid⟩ := hrec.shrink (shrinks_applyEntry r i) _ e' he' t s hs
    have hstay := not_restarted_applyEntry hhost he' hs
    have hdiff : pidOf i t ≠ s.pid := hpid ▸ (hpids t).2 j hj hkey
    simp [restarted, (hpids t).1, hdiff] at hstay
  rw [hfull.applyEntry i _ e' he'] at hbare
  cases hbare

/-- So does a listing. -/
theorem get_applyAll_fresh {stops : List Instance} {r : Registry} (hrec : Recorded stops r)
    (hfull : r.Full) {items : List Instance} {i : Instance} (hm : i ∈ items)
    (hi : fresh stops i = true) : (applyAll r items).2.entries.get i.instanceKey = none := by
  induction items generalizing r with
  | nil => cases hm
  | cons j items ih =>
      rcases List.mem_cons.mp hm with rfl | hm
      · exact (shrinks_applyAll _ items).get_none (get_applyEntry_fresh hrec hfull hi)
      · exact ih (hrec.shrink (shrinks_applyEntry r j)) (hfull.applyEntry j) hm

theorem full_applyAll {r : Registry} (hfull : r.Full) (items : List Instance) :
    (applyAll r items).2.Full := by
  induction items generalizing r with
  | nil => exact hfull
  | cons i items ih => exact ih (hfull.applyEntry i)

theorem Tracked.poll {w : Watch} (h : Tracked w) (alive : Nat → Bool) (live : List Instance) :
    Tracked (w.after (.poll alive live)) := by
  have hread : (overlayList alive live w.reg).2.entries = (applyAll w.reg (list live)).2.entries :=
    entries_keepShown _ _
  have hshrink : Registry.Shrinks (applyAll w.reg (list live)).2 w.reg := shrinks_applyAll _ _
  refine ⟨fun k e he => ?_, fun k e he => ?_, fun k hk => ?_⟩
  · exact h.snaps.shrink hshrink k e (hread ▸ he)
  · exact full_applyAll h.full (list live) k e (hread ▸ he)
  · show (overlayList alive live w.reg).2.entries.get k = none
    rw [hread]
    rcases List.mem_append.mp hk with hk | hk
    · exact hshrink.get_none (h.gone k hk)
    · obtain ⟨i, hi, rfl⟩ := List.mem_map.mp hk
      obtain ⟨hm, hf⟩ := List.mem_filter.mp hi
      exact get_applyAll_fresh h.snaps h.full (mem_list.mpr hm) hf

/-! ## 4. No ghost after a restart -/

/-- Without an entry an instance that is not live is not listed. -/
theorem not_listed_of_no_entry {alive : Nat → Bool} {live : List Instance} {r : Registry} {k : Str}
    (hk : r.entries.get k = none) (hlive : k ∉ live.map Instance.instanceKey) :
    ∀ x ∈ (overlayList alive live r).1, x.instanceKey ≠ k := by
  intro x hx hxk
  have hx' := (sortInstances_perm _).mem_iff.mp hx
  rcases List.mem_append.mp (mem_of_mem_keepShown hx') with hm | hm
  · have hkeys := List.mem_map_of_mem (f := Instance.instanceKey) hm
    rw [keys_applyAll, hxk] at hkeys
    exact hlive (mem_keys_list.mp hkeys)
  · obtain ⟨e, he, -, rfl⟩ := mem_ghosts.mp hm
    rw [key_synthesize] at hxk
    rw [hxk, (shrinks_applyAll r (list live)).get_none hk] at he
    cases he

/-- **No ghost outlives a restart**, in every run whose recorded stops each leave a snapshot: an
    instance that a poll has seen fresh since its last recorded stop has no entry, and no listing
    shows it when it is not live. -/
theorem no_ghost_after_restart {w : Watch} {l : List (Watch × Event)}
    (hrun : Trace (fun w a w' => w' = w.after a) Watch.start l w)
    (hcap : ∀ p ∈ l, Captures p.1 p.2) :
    ∀ k ∈ w.seen, w.reg.entries.get k = none ∧
      ∀ alive live, k ∉ live.map Instance.instanceKey →
        ∀ x ∈ (overlayList alive live w.reg).1, x.instanceKey ≠ k := by
  have htracked : Tracked w := by
    refine hrun.inv_of Tracked.start (fun w a w' h hc hs => ?_) hcap
    subst hs
    cases a with
    | stop i host target env => exact h.stop hc
    | poll alive live => exact h.poll alive live
  intro k hk
  have hnone := htracked.gone k hk
  exact ⟨hnone, fun alive live hlive => not_listed_of_no_entry hnone hlive⟩

/-- The app `a` under `dapr run`, its three processes from `pid` on. -/
def instanceA (pid : Nat) : Instance where
  appID := "a".toList
  instanceKey := "a".toList
  source := .standalone
  appStatus := .running
  daprdStatus := .running
  appPID := pid
  daprdPID := pid + 1
  cliPID := pid + 2
  key_host := key_host_a
  pid_container h := by cases h
  orphan_stopped := orphan_running

/-- Every signal arrives; processes can be looked at if `seen`. -/
def tameEnv (seen : Bool) : ProcEnv where
  snapshot pid := if seen then some { pid := pid } else none
  terminate _ := true
  looks _ := []
  aliveAfter _ := false
  kill _ := true
  snapshot_pid := snapshot_pid_of_seen seen

/-- A stop of the app, then a poll that sees it under new PIDs. -/
def stopThenPoll (seen : Bool) : List Event :=
  [.stop (instanceA 11) rfl .all (tameEnv seen), .poll (fun _ => true) [instanceA 21]]

theorem no_ghost_after_restart_a :
    "a".toList ∈ ((stopThenPoll true).foldl Watch.after Watch.start).seen ∧
      ((stopThenPoll true).foldl Watch.after Watch.start).reg.entries.get "a".toList = none := by
  have hseen : "a".toList ∈ ((stopThenPoll true).foldl Watch.after Watch.start).seen :=
    List.mem_singleton_self _
  refine ⟨hseen, (no_ghost_after_restart (Trace.of_visited Watch.after Watch.start
    (stopThenPoll true)) (fun p hp => ?_) "a".toList hseen).1⟩
  rcases List.mem_cons.mp hp with rfl | hp
  · exact fun _ => .inl ⟨.app, rfl⟩
  · rw [List.mem_singleton.mp hp]
    exact trivial

/-- **A stop whose snapshots all fail**: its entry has nothing that could be seen to come back. The
    app runs on under new PIDs, a poll has seen it, and the entry is still there; when the app
    exits by itself it is listed as stopped. -/
theorem bare_entry_stays :
    "a".toList ∈ ((stopThenPoll false).foldl Watch.after Watch.start).seen ∧
      ((stopThenPoll false).foldl Watch.after Watch.start).reg.entries.get "a".toList ≠ none ∧
      ∃ x ∈ (overlayList (fun _ => false) []
        ((stopThenPoll false).foldl Watch.after Watch.start).reg).1, x.instanceKey = "a".toList := by
  have hlist : list [instanceA 21] = [instanceA 21] := List.mergeSort_singleton _
  have hentry : ((stopThenPoll false).foldl Watch.after Watch.start).reg.entries.get "a".toList =
      some ⟨instanceA 11, snapshots (tameEnv false) (instanceA 11) .all, rfl⟩ := by
    show (overlayList (fun _ => true) [instanceA 21] _).2.entries.get "a".toList = _
    simp only [overlayList, entries_keepShown, hlist]
    rfl
  have hshown : ((stopThenPoll false).foldl Watch.after Watch.start).reg.suppressed = [] := by
    show (overlayList (fun _ => true) [instanceA 21] _).2.suppressed = []
    simp only [overlayList, hlist]
    rfl
  refine ⟨List.mem_singleton_self _, by rw [hentry]; exact Option.some_ne_none _, _,
    @ghost_mem_overlayList _ _ _ ⟨instanceA 11, snapshots (tameEnv false) (instanceA 11) .all, rfl⟩
      hentry (by simp) ?_, key_synthesize _ _⟩
  intro hh
  have hmem := hh.1
  rw [hshown] at hmem
  cases hmem

end DevDashboard.Lifecycle
