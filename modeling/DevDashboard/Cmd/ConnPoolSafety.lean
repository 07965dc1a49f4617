/-
  File:      DevDashboard/Cmd/ConnPoolSafety.lean
  Subject:   WHAT THE CONNECTION POOL GUARANTEES, AND WHERE IT LEAKS.

  * `connPool_safe` -- in every interleaving no store is closed twice, no `done` channel is
    closed twice, nobody waits for an opener that has returned, a slot is opened once, a cached
    store is open, and a closed pool gets no slot;
  * `connPool_all_closed_iff` -- once `Close` was called and every call has returned, every store
    that was ever opened has been closed IF AND ONLY IF no step of the run was a late delete:
    both `delete(p.slots, id)` of `openOrGet` delete by id, so a late opener can throw out the
    slot of a newer one, whose store is then in no map and with no call (`connPool_leaks`).
-/
import DevDashboard.Cmd.ConnPoolInv

namespace DevDashboard.Cmd

open Lib

variable {I E : Type} [DecidableEq I]

/-! ## 1. Safety -/

/-- The call is blocked: the channel it receives on is still open. -/
def Pool.Blocked (σ : Pool I E) (c : CallId) (s : SlotId) : Prop :=
  (σ.pc c).receivesOn = some s ∧ (σ.slot s).done = false

/-- **A closed pool gets no slot**: no step inserts into the map of a closed pool. -/
theorem slots_of_closed {σ σ' : Pool I E} {c : CallId} (hs : Step σ c σ') (hc : σ.closed = true)
    {id : I} {s : SlotId} (h : σ'.slots id = some s) : σ.slots id = some s := by
  have hdel : ∀ {j : I}, Function.update σ.slots j none id = some s → σ.slots id = some s := by
    intro j h
    rw [Function.update_apply] at h
    split at h
    · cases h
    · exact h
  cases hs with
  | make j _ hc' _ => rw [hc] at hc'; cases hc'
  | dropFailed => exact hdel h
  | recheckEvicted => exact hdel h
  | evictTake => exact hdel h
  | closeTake _ _ hc' _ _ => rw [hc] at hc'; cases hc'
  | _ => exact h

theorem PoolInv.closes_le_one {σ : Pool I E} (hI : PoolInv σ) (st : StoreId) :
    σ.closes st ≤ 1 := by
  rcases Nat.lt_or_ge st σ.nstores with h | h
  · rcases hI.accounted st h with ⟨c, hc⟩ | ⟨s, hs⟩ | h1
    · rw [(hI.hand c st hc).2.1]
      exact Nat.zero_le 1
    · rw [(hI.stored s st hs).2]
      split <;> omega
    · exact Nat.le_of_eq h1
  · rw [hI.unopened st h]
    exact Nat.zero_le 1

theorem PoolInv.not_returned_of_blocked {σ : Pool I E} (hI : PoolInv σ) {c : CallId} {s : SlotId}
    (h : σ.Blocked c s) (r : Ret E) : σ.pc (σ.owner s) ≠ .returned r := by
  intro hr
  have := hI.undone s (hI.receives c s h.1) h.2
  rw [hr] at this
  cases this

theorem PoolInv.open_of_slots {σ : Pool I E} (hI : PoolInv σ) {id : I} {s : SlotId} {st : StoreId}
    (hs : σ.slots id = some s) (hst : (σ.slot s).store = some st) : σ.closes st = 0 := by
  rw [(hI.stored s st hst).2, (hI.inMap id s).mp hs]
  rfl

/-- **The pool is safe in every interleaving.** -/
theorem connPool_safe {l : List (Pool I E × CallId)} {σ : Pool I E}
    (h : Trace Step newConnPool l σ) :
    (∀ st, σ.closes st ≤ 1) ∧
    (∀ s, σ.doneCloses s ≤ 1) ∧
    (∀ c s, σ.Blocked c s → ∀ r, σ.pc (σ.owner s) ≠ .returned r) ∧
    (∀ s, σ.opens s ≤ 1) ∧
    (∀ id s st, σ.slots id = some s → (σ.slot s).store = some st → σ.closes st = 0) ∧
    (∀ c σ', Step σ c σ' → σ.closed = true →
      ∀ id s, σ'.slots id = some s → σ.slots id = some s) := by
  have hI := poolInv_run h
  refine ⟨hI.closes_le_one, fun s => ?_, fun c s hb r => hI.not_returned_of_blocked hb r,
    hI.opensOnce, fun id s st => hI.open_of_slots, fun c σ' hs hc id s => slots_of_closed hs hc⟩
  rw [hI.doneOnce s]
  split <;> omega

/-! ## 2. Leaks -/

/-- The slot's own re-check has passed: its store is, or is about to be, in the slot. -/
def Pool.Live (σ : Pool I E) (s : SlotId) : Prop :=
  (∃ c st, σ.pc c = .confirmed s st) ∨ ∃ st, (σ.slot s).store = some st

/-- **The late delete**: call `c` is about to run `delete(p.slots, id)` for its slot `s` (the open
    failed, or the re-check will find the slot gone) while the map holds another slot under `id`
    whose own re-check has passed. -/
def Pool.LateDelete (σ : Pool I E) (c : CallId) : Prop :=
  ∃ id s s', s' ≠ s ∧ σ.slots id = some s' ∧ σ.Live s' ∧
    ((∃ e, σ.pc c = .openFailed id s e) ∨ ∃ st, σ.pc c = .opened id s st)

/-- A store nobody is left to close. -/
def Pool.Leaked (σ : Pool I E) : Prop := ∃ s, σ.holder s = .dropped ∧ σ.Live s

/-- Every call that was made has returned. -/
def Pool.Quiescent (σ : Pool I E) : Prop := ∀ c, σ.pc c = .idle ∨ ∃ r, σ.pc c = .returned r

/-- **What a step does to a slot's holder.** -/
theorem holder_step {σ σ' : Pool I E} {c : CallId} (hI : PoolInv σ) (hs : Step σ c σ')
    (s : SlotId) :
    σ'.holder s = σ.holder s ∨ (σ.holder s = .unborn ∧ ∃ id, σ'.holder s = .inMap id) ∨
    (∃ id, σ.slots id = some s ∧ ∃ d, σ'.holder s = .call d) ∨
    (∃ id, σ.slots id = some s ∧ ((∃ t e, σ.pc c = .openFailed id t e) ∨
      ∃ t st, σ.pc c = .opened id t st ∧ (σ.closed = true ∨ σ.slots id ≠ some t))) ∨
    (∃ d, σ.holder s = .call d ∧ σ'.holder s = .settled) := by
  cases hs with
  | make id hp hc hs =>
      by_cases h : s = σ.nslots
      · subst h
        exact Or.inr (Or.inl ⟨(hI.unborn _ le_rfl).2.1, id, Function.update_self ..⟩)
      · exact Or.inl (Function.update_of_ne h _ _)
  | dropFailed id t e hp =>
      by_cases h : σ.slots id = some s
      · exact Or.inr (Or.inr (Or.inr (Or.inl ⟨id, h, Or.inl ⟨t, e, hp⟩⟩)))
      · exact Or.inl (if_neg h)
  | recheckEvicted id t st hp he =>
      by_cases h : σ.slots id = some s
      · exact Or.inr (Or.inr (Or.inr (Or.inl ⟨id, h, Or.inr ⟨t, st, hp, he⟩⟩)))
      · exact Or.inl (if_neg h)
  | evictTake id t hp hs =>
      by_cases h : σ.slots id = some s
      · exact Or.inr (Or.inr (Or.inl ⟨id, h, c, if_pos h⟩))
      · exact Or.inl (if_neg h)
  | closeTake l hp hc hl hm =>
      by_cases h : s ∈ l
      · obtain ⟨id, hid⟩ := (hm s).mp h
        exact Or.inr (Or.inr (Or.inl ⟨id, hid, c, if_pos h⟩))
      · exact Or.inl (if_neg h)
  | evictClose t hp hd =>
      by_cases h : s = t
      · subst h
        have hc := (hI.taken c s).mp (by simp [hp, Pc.taken])
        exact Or.inr (Or.inr (Or.inr (Or.inr ⟨c, hc, Function.update_self ..⟩)))
      · exact Or.inl (Function.update_of_ne h _ _)
  | drain t l errs r hp hd hr =>
      by_cases h : s = t
      · subst h
        have hc := (hI.taken c s).mp (by simp [hp, Pc.taken])
        exact Or.inr (Or.inr (Or.inr (Or.inr ⟨c, hc, Function.update_self ..⟩)))
      · exact Or.inl (Function.update_of_ne h _ _)
  | _ => exact Or.inl rfl

/-- A dropped slot stays dropped. -/
theorem dropped_step {σ σ' : Pool I E} {c : CallId} {s : SlotId} (hI : PoolInv σ)
    (hs : Step σ c σ') (h : σ.holder s = .dropped) : σ'.holder s = .dropped := by
  have hmap : ∀ id, σ.slots id ≠ some s := fun id hid => by
    rw [(hI.inMap id s).mp hid] at h
    cases h
  rcases holder_step hI hs s with e | ⟨he, _⟩ | ⟨id, hid, _⟩ | ⟨id, hid, _⟩ | ⟨d, hd, _⟩
  · rw [e, h]
  · rw [h] at he; cases he
  · exact absurd hid (hmap id)
  · exact absurd hid (hmap id)
  · rw [h] at hd; cases hd

/-- A step moves the program counter of the acting call only. -/
theorem pc_of_ne {σ σ' : Pool I E} {c d : CallId} (hs : Step σ c σ') (hd : d ≠ c) :
    σ'.pc d = σ.pc d := by
  cases hs <;> exact Function.update_of_ne hd _ _

/-- A slot keeps the store it has. -/
theorem store_step {σ σ' : Pool I E} {c : CallId} {s : SlotId} {st : StoreId} (hI : PoolInv σ)
    (hs : Step σ c σ') (h : (σ.slot s).store = some st) : (σ'.slot s).store = some st := by
  cases hs with
  | make id hp hc hs =>
      have hne : s ≠ σ.nslots := by
        rintro rfl
        rw [(hI.unborn _ le_rfl).1] at h
        cases h
      simpa [Pool.goto, Pool.insert, Function.update_of_ne hne] using h
  | publish t st' hp =>
      have hne : s ≠ t := by
        rintro rfl
        rw [hI.unwritten c s (by rw [hp]; rfl) (by rw [hp]; simp)] at h
        cases h
      simpa [Pool.goto, Pool.setStore, Function.update_of_ne hne] using h
  | finishFailed t e hp | finishRejected t hp | finishPublish t hp =>
      by_cases hst : s = t
      · subst hst
        simpa [Pool.goto, Pool.closeDone, Pool.setErr] using h
      · simpa [Pool.goto, Pool.closeDone, Pool.setErr, Function.update_of_ne hst] using h
  | _ => exact h

/-- A live slot stays live: the call that confirmed it can only go on to publish. -/
theorem live_step {σ σ' : Pool I E} {c : CallId} {s : SlotId} (hI : PoolInv σ) (hs : Step σ c σ')
    (h : σ.Live s) : σ'.Live s := by
  rcases h with ⟨d, st, hd⟩ | ⟨st, h⟩
  · by_cases hdc : d = c
    · subst hdc
      cases hs <;> simp_all only [reduceCtorEq, Pc.confirmed.injEq]
      obtain ⟨rfl, rfl⟩ := hd
      exact Or.inr ⟨_, congrArg PoolSlot.store (Function.update_self _ _ σ.slot)⟩
    · exact Or.inl ⟨d, st, (pc_of_ne hs hdc).trans hd⟩
  · exact Or.inr ⟨st, store_step hI hs h⟩

/-- A slot becomes live only when its own re-check passes. -/
theorem live_of_step {σ σ' : Pool I E} {c : CallId} {s : SlotId} (hs : Step σ c σ')
    (h : σ'.Live s) :
    σ.Live s ∨ ∃ id st, σ.pc c = .opened id s st ∧ σ.slots id = some s := by
  unfold Pool.Live at *
  cases hs <;> simp only [Pool.goto, Pool.insert, Pool.delete, Pool.closeDone, Pool.setErr,
    Pool.setStore, Pool.closeStore, Pool.countOpen, Pool.takeAll, Pool.settle,
    Function.update_apply] at h <;> grind

/-- The slot a call is opening is not live before its re-check. -/
theorem not_live_of_opening {σ : Pool I E} {c : CallId} {s : SlotId} (hI : PoolInv σ)
    (ho : (σ.pc c).opener = some s) (hc : ∀ st, σ.pc c ≠ .confirmed s st)
    (hp : σ.pc c ≠ .publishing s) : ¬ σ.Live s := by
  rintro (⟨d, st, hd⟩ | ⟨st, h⟩)
  · have e : c = d := (hI.opener c s ho).1.symm.trans (hI.opener d s (by rw [hd]; rfl)).1
    exact hc st (e ▸ hd)
  · rw [hI.unwritten c s ho hp] at h
    cases h

/-- **A late delete leaks.** -/
theorem leaked_of_late {σ σ' : Pool I E} {c : CallId} (hI : PoolInv σ) (hl : σ.LateDelete c)
    (hs : Step σ c σ') : σ'.Leaked := by
  obtain ⟨id, s, s', hne, hm, hlive, hp⟩ := hl
  refine ⟨s', ?_, live_step hI hs hlive⟩
  rcases hp with ⟨e, hp⟩ | ⟨st, hp⟩
  · cases hs <;> simp_all only [reduceCtorEq, Pc.openFailed.injEq]
    obtain ⟨rfl, rfl, rfl⟩ := hp
    exact if_pos hm
  · cases hs <;> simp_all only [reduceCtorEq, Pc.opened.injEq]
    · obtain ⟨rfl, rfl, rfl⟩ := hp
      exact if_pos hm
    · obtain ⟨rfl, rfl, rfl⟩ := hp
      simp_all

theorem leaked_step {σ σ' : Pool I E} {c : CallId} (hI : PoolInv σ) (h : σ.Leaked)
    (hs : Step σ c σ') : σ'.Leaked := by
  obtain ⟨s, hd, hl⟩ := h
  exact ⟨s, dropped_step hI hs hd, live_step hI hs hl⟩

/-- **Nothing else leaks**: a step that is not a late delete leaks no store. -/
theorem not_leaked_step {σ σ' : Pool I E} {c : CallId} (hI : PoolInv σ) (h : ¬ σ.Leaked)
    (hl : ¬ σ.LateDelete c) (hs : Step σ c σ') : ¬ σ'.Leaked := by
  rintro ⟨s, hd, hlive⟩
  rcases holder_step hI hs s with e | ⟨_, id, e⟩ | ⟨id, _, d, e⟩ | ⟨id, hid, hp⟩ | ⟨d, _, e⟩
  · rw [hd] at e
    rcases live_of_step hs hlive with hls | ⟨id, st, _, hid⟩
    · exact h ⟨s, e.symm, hls⟩
    · rw [(hI.inMap id s).mp hid] at e
      cases e
  · rw [hd] at e; cases e
  · rw [hd] at e; cases e
  · -- the slot is deleted in this step: by its own opener it is not live, by another one it is
    -- a late delete
    have hls : σ.Live s := by
      rcases live_of_step hs hlive with hls | ⟨id', st, hp', hid'⟩
      · exact hls
      · rcases hp with ⟨t, e, hp⟩ | ⟨t, st', hp, hc | hc⟩
        · rw [hp'] at hp; cases hp
        · rw [hI.closed hc] at hid'; cases hid'
        · rw [hp'] at hp; cases hp
          exact absurd hid hc
    rcases hp with ⟨t, e, hp⟩ | ⟨t, st, hp, _⟩
    · refine hl ⟨id, t, s, ?_, hid, hls, Or.inl ⟨e, hp⟩⟩
      rintro rfl
      exact not_live_of_opening hI (by rw [hp]; rfl) (by simp [hp]) (by simp [hp]) hls
    · refine hl ⟨id, t, s, ?_, hid, hls, Or.inr ⟨st, hp⟩⟩
      rintro rfl
      exact not_live_of_opening hI (by rw [hp]; rfl) (by simp [hp]) (by simp [hp]) hls
  · rw [hd] at e; cases e

/-- **At rest after `Close`, the stores not closed are the leaked ones.** -/
theorem allClosed_iff {σ : Pool I E} (hI : PoolInv σ) (hc : σ.closed = true) (hq : σ.Quiescent) :
    (∀ st, st < σ.nstores → 1 ≤ σ.closes st) ↔ ¬ σ.Leaked := by
  have hand : ∀ c, (σ.pc c).inHand = none := fun c => by
    rcases hq c with h | ⟨r, h⟩ <;> rw [h] <;> rfl
  have taken : ∀ c, (σ.pc c).taken = [] := fun c => by
    rcases hq c with h | ⟨r, h⟩ <;> rw [h] <;> rfl
  constructor
  · rintro hall ⟨s, hd, ⟨c, st, hp⟩ | ⟨st, hs⟩⟩
    · have := hand c
      rw [hp] at this
      cases this
    · have h1 := hall st (hI.stored s st hs).1
      rw [(hI.stored s st hs).2, hd] at h1
      simp at h1
  · intro hn st hst
    rcases hI.accounted st hst with ⟨c, h⟩ | ⟨s, hs⟩ | h
    · rw [hand c] at h; cases h
    · rw [(hI.stored s st hs).2]
      cases hh : σ.holder s with
      | settled => exact Nat.le_refl 1
      | dropped => exact absurd ⟨s, hh, Or.inr ⟨st, hs⟩⟩ hn
      | inMap id =>
          have := (hI.inMap id s).mpr hh
          rw [hI.closed hc] at this
          cases this
      | call c =>
          have := (hI.taken c s).mpr hh
          rw [taken c] at this
          exact absurd this List.not_mem_nil
      | unborn =>
          have hlt : s < σ.nslots := Nat.lt_of_not_le fun hle => by
            rw [(hI.unborn s hle).1] at hs
            cases hs
          exact absurd hh (hI.born s hlt)
    · exact Nat.le_of_eq h.symm

omit [DecidableEq I] in
theorem not_leaked_new : ¬ (newConnPool : Pool I E).Leaked := by
  rintro ⟨s, h, _⟩
  cases h

/-- **No leak, exactly.** -/
theorem connPool_all_closed_iff {l : List (Pool I E × CallId)} {σ : Pool I E}
    (h : Trace Step newConnPool l σ) (hc : σ.closed = true) (hq : σ.Quiescent) :
    (∀ st, st < σ.nstores → 1 ≤ σ.closes st) ↔ ∀ p ∈ l, ¬ p.1.LateDelete p.2 := by
  rw [allClosed_iff (poolInv_run h) hc hq]
  constructor
  · intro hn p hp hl
    exact hn (h.stable_of_step (C := fun σ c => σ.LateDelete c) poolInv_new
      (fun _ _ _ => poolInv_step) (fun _ _ _ => leaked_of_late) (fun _ _ _ => leaked_step)
      ⟨p, hp, hl⟩)
  · intro hl
    exact (h.inv_of (I := fun σ => PoolInv σ ∧ ¬ σ.Leaked) (C := fun σ c => ¬ σ.LateDelete c)
      ⟨poolInv_new, not_leaked_new⟩
      (fun _ _ _ hI hl hs => ⟨poolInv_step hI.1 hs, not_leaked_step hI.1 hI.2 hl hs⟩) hl).2

/-- Listing a map with one entry. -/
theorem mem_singleton_iff_update (id : I) (s t : SlotId) :
    t ∈ [s] ↔ ∃ j, Function.update (fun _ => none) id (some s) j = some t := by
  constructor
  · intro h
    exact ⟨id, by rw [Function.update_self, List.mem_singleton.mp h]⟩
  · rintro ⟨j, hj⟩
    rw [Function.update_apply] at hj
    split at hj
    · cases hj; exact List.mem_singleton_self s
    · cases hj

/-- Listing a map whose only entry was deleted. -/
theorem mem_nil_iff_update {f : I → Option SlotId} {id : I} (hf : ∀ j, j ≠ id → f j = none)
    (t : SlotId) : t ∈ [] ↔ ∃ j, Function.update f id none j = some t := by
  constructor
  · exact fun h => absurd h List.not_mem_nil
  · rintro ⟨j, hj⟩
    rw [Function.update_apply] at hj
    split at hj
    · cases hj
    · rw [hf j ‹_›] at hj; cases hj

/-- A run without a late delete: call 0 opens, call 1 closes the pool. -/
theorem run_open_close :
    ∃ (l : List (Pool Nat Unit × CallId)) (σ : Pool Nat Unit), Trace Step newConnPool l σ ∧
      σ.closed = true ∧ σ.Quiescent ∧ σ.nstores = 1 ∧ ∀ st, st < σ.nstores → 1 ≤ σ.closes st := by
  have h := (Trace.start : Trace Step (newConnPool : Pool Nat Unit) [] newConnPool)
    |>.next (.invoke _ 0 (.openOrGet 7) rfl)
    |>.next (.make _ 0 7 rfl rfl rfl)
    |>.next (.openOk _ 0 7 0 rfl)
    |>.next (.recheckOk _ 0 7 0 0 rfl rfl rfl)
    |>.next (.publish _ 0 0 0 rfl)
    |>.next (.finishPublish _ 0 0 rfl)
    |>.next (.invoke _ 1 .close rfl)
    |>.next (.closeTake _ 1 [0] rfl rfl (by decide) (mem_singleton_iff_update 7 0))
    |>.next (.drain _ 1 0 [] [] none rfl rfl fun _ => rfl)
    |>.next (.drained _ 1 [] rfl)
  refine ⟨_, _, h, rfl, fun c => ?_, rfl, fun st hst => ?_⟩
  · match c with
    | 0 | 1 => exact Or.inr ⟨_, rfl⟩
    | n + 2 => exact Or.inl rfl
  · match st, hst with
    | 0, _ => decide

theorem connPool_safe_open_close :
    ∃ (l : List (Pool Nat Unit × CallId)) (σ : Pool Nat Unit), Trace Step newConnPool l σ ∧
      σ.closed = true ∧ ∀ st, σ.closes st ≤ 1 := by
  obtain ⟨l, σ, h, hc, _⟩ := run_open_close
  exact ⟨l, σ, h, hc, (connPool_safe h).1⟩

theorem connPool_all_closed_iff_open_close :
    ∃ (l : List (Pool Nat Unit × CallId)) (σ : Pool Nat Unit), Trace Step newConnPool l σ ∧
      σ.closed = true ∧ σ.Quiescent ∧ σ.nstores = 1 ∧ ∀ p ∈ l, ¬ p.1.LateDelete p.2 := by
  obtain ⟨l, σ, h, hc, hq, hn, hall⟩ := run_open_close
  exact ⟨l, σ, h, hc, hq, hn, (connPool_all_closed_iff h hc hq).mp hall⟩

/-- **The leak**: call 0 opens identity 7; call 1 evicts it; call 2 opens it again and caches its
    store; then call 0's open fails and deletes call 2's slot, so call 3's `Close` never sees it. -/
theorem connPool_leaks :
    ∃ (l : List (Pool Nat Unit × CallId)) (σ : Pool Nat Unit), Trace Step newConnPool l σ ∧
      σ.closed = true ∧ σ.Quiescent ∧ ¬ ∀ st, st < σ.nstores → 1 ≤ σ.closes st := by
  have hne : ∀ j : Nat, j ≠ 7 → Function.update (Function.update (Function.update
      (fun _ => none) 7 (some 0)) 7 none) 7 (some 1) j = none := by
    intro j hj
    simp only [Function.update_of_ne hj]
  have h := (Trace.start : Trace Step (newConnPool : Pool Nat Unit) [] newConnPool)
    |>.next (.invoke _ 0 (.openOrGet 7) rfl)
    |>.next (.make _ 0 7 rfl rfl rfl)
    |>.next (.invoke _ 1 (.evict 7) rfl)
    |>.next (.evictTake _ 1 7 0 rfl rfl)
    |>.next (.invoke _ 2 (.openOrGet 7) rfl)
    |>.next (.make _ 2 7 rfl rfl rfl)
    |>.next (.openOk _ 2 7 1 rfl)
    |>.next (.recheckOk _ 2 7 1 0 rfl rfl rfl)
    |>.next (.publish _ 2 1 0 rfl)
    |>.next (.finishPublish _ 2 1 rfl)
    |>.next (.openErr _ 0 7 0 () rfl)
    |>.next (.dropFailed _ 0 7 0 () rfl)
    |>.next (.finishFailed _ 0 0 () rfl)
    |>.next (.evictClose _ 1 0 rfl rfl)
    |>.next (.invoke _ 3 .close rfl)
    |>.next (.closeTake _ 3 [] rfl rfl (by decide) (@mem_nil_iff_update Nat _ _ 7 hne))
    |>.next (.drained _ 3 [] rfl)
  refine ⟨_, _, h, rfl, ?_, fun hall => absurd (hall 0 (by decide)) (by decide)⟩
  · intro c
    match c with
    | 0 | 1 | 2 | 3 => exact Or.inr ⟨_, rfl⟩
    | n + 4 => exact Or.inl rfl

end DevDashboard.Cmd
