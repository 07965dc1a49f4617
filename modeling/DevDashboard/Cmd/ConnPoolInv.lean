/-
  File:      DevDashboard/Cmd/ConnPoolInv.lean
  Subject:   THE INVARIANT OF THE CONNECTION POOL.

  `PoolInv` ties the map, the slots, the program counters and the ledger together. The three
  facts the rest follows from:

  * a slot whose `done` is open has its opener, the call that made it, still at work on it
    (`opener`, `undone`);
  * a slot has one holder: the map, one `evict` or `Close` call, or nobody (`inMap`, `taken`);
  * a store is in the hand of one opener, in one slot, or closed (`hand`, `stored`, `accounted`),
    and a slot's store is closed exactly when the slot is settled.

  One lemma for each operation on the pool (§2), put together rule by rule in `poolInv_step`.
-/
import DevDashboard.Cmd.ConnPool
import Mathlib.Tactic

namespace DevDashboard.Cmd

open Lib

variable {I E : Type} [DecidableEq I]

/-! ## 1. What the invariant reads of a call -/

namespace Pc

/-- The slot whose open the call is carrying out. -/
def opener : Pc I E → Option SlotId
  | .opening _ s | .openFailed _ s _ | .failing s _ | .opened _ s _ | .rejected s _
  | .rejecting s | .confirmed s _ | .publishing s => some s
  | _ => none

/-- The store the call alone knows of. -/
def inHand : Pc I E → Option StoreId
  | .opened _ _ st | .rejected _ st | .confirmed _ st => some st
  | _ => none

/-- The slots the call took out of the map and is to settle. -/
def taken : Pc I E → List SlotId
  | .evicting s => [s]
  | .draining l _ => l
  | _ => []

/-- What the invariant knows of a call: its slot, its store and the slots it took. -/
def role (p : Pc I E) : Option SlotId × Option StoreId × List SlotId :=
  (p.opener, p.inHand, p.taken)

/-- The slot on whose `done` channel the call receives. -/
def receivesOn : Pc I E → Option SlotId
  | .waiting s | .evicting s | .draining (s :: _) _ => some s
  | _ => none

end Pc

/-- **The invariant of the pool.** -/
structure PoolInv (σ : Pool I E) : Prop where
  opener : ∀ c s, (σ.pc c).opener = some s →
    σ.owner s = c ∧ s < σ.nslots ∧ (σ.slot s).done = false
  undone : ∀ s, s < σ.nslots → (σ.slot s).done = false → (σ.pc (σ.owner s)).opener = some s
  doneOnce : ∀ s, σ.doneCloses s = if (σ.slot s).done = true then 1 else 0
  opening : ∀ c id s, σ.pc c = .opening id s → σ.opens s = 0
  opensOnce : ∀ s, σ.opens s ≤ 1
  unwritten : ∀ c s, (σ.pc c).opener = some s → σ.pc c ≠ .publishing s →
    (σ.slot s).store = none
  unborn : ∀ s, σ.nslots ≤ s → σ.slot s = {} ∧ σ.holder s = .unborn ∧ σ.opens s = 0
  born : ∀ s, s < σ.nslots → σ.holder s ≠ .unborn
  receives : ∀ c s, (σ.pc c).receivesOn = some s → s < σ.nslots
  inMap : ∀ id s, σ.slots id = some s ↔ σ.holder s = .inMap id
  taken : ∀ c s, s ∈ (σ.pc c).taken ↔ σ.holder s = .call c
  takenOnce : ∀ c, (σ.pc c).taken.Nodup
  settled : ∀ s, σ.holder s = .settled → (σ.slot s).done = true
  closed : σ.closed = true → ∀ id, σ.slots id = none
  hand : ∀ c st, (σ.pc c).inHand = some st →
    st < σ.nstores ∧ σ.closes st = 0 ∧ ∀ s, (σ.slot s).store ≠ some st
  handOnce : ∀ c c' st, (σ.pc c).inHand = some st → (σ.pc c').inHand = some st → c = c'
  stored : ∀ s st, (σ.slot s).store = some st → st < σ.nstores ∧
    (σ.closes st = if σ.holder s = .settled then 1 else 0)
  storedOnce : ∀ s s' st, (σ.slot s).store = some st → (σ.slot s').store = some st → s = s'
  unopened : ∀ st, σ.nstores ≤ st → σ.closes st = 0
  accounted : ∀ st, st < σ.nstores → (∃ c, (σ.pc c).inHand = some st) ∨
    (∃ s, (σ.slot s).store = some st) ∨ σ.closes st = 1

theorem poolInv_new : PoolInv (newConnPool : Pool I E) := by
  constructor <;> simp [newConnPool, Pc.opener, Pc.inHand, Pc.taken, Pc.receivesOn]

theorem PoolInv.slots_lt {σ : Pool I E} (hI : PoolInv σ) {id : I} {s : SlotId}
    (hs : σ.slots id = some s) : s < σ.nslots := by
  refine Nat.lt_of_not_le fun hle => ?_
  have h := (hI.inMap id s).mp hs
  rw [(hI.unborn s hle).2.1] at h
  cases h

/-! ## 2. The operations keep it -/

section Ops

variable {σ : Pool I E} {c : CallId}

/-- **A step that only moves on**: the new program counter has the role of the old one. -/
theorem poolInv_goto {p : Pc I E} (hI : PoolInv σ) (hro : p.role = (σ.pc c).role)
    (hr : ∀ s, p.receivesOn = some s → s < σ.nslots) (hn : ∀ id s, p ≠ .opening id s)
    (hq : ∀ s, σ.pc c ≠ .publishing s) : PoolInv (σ.goto c p) := by
  obtain ⟨ho, hh, ht⟩ : p.opener = (σ.pc c).opener ∧ p.inHand = (σ.pc c).inHand ∧
      p.taken = (σ.pc c).taken := by simpa [Pc.role] using hro
  cases hI
  constructor <;> simp only [Pool.goto, Function.update_apply] <;> first | assumption | grind

/-- Deleting by id is harmless to the invariant, whatever slot it hits. -/
theorem poolInv_drop (id : I) (hI : PoolInv σ) : PoolInv (σ.delete id .dropped) := by
  cases hI
  constructor <;> simp only [Pool.delete, Function.update_apply] <;> first | assumption | grind

theorem poolInv_setErr (s : SlotId) (err : PoolErr E) (hI : PoolInv σ) (hs : s < σ.nslots):
    PoolInv (σ.setErr s err) := by
  cases hI
  constructor <;> simp only [Pool.setErr, Function.update_apply] <;> first | assumption | grind

theorem poolInv_make (id : I) (hI : PoolInv σ) (hp : σ.pc c = .called (.openOrGet id))
    (hc : σ.closed = false) (hs : σ.slots id = none) :
    PoolInv ((σ.insert c id).goto c (.opening id σ.nslots)) := by
  cases hI
  constructor <;> simp only [Pool.goto, Pool.insert, Function.update_apply] <;>
    first | assumption | grind [Pc.opener, Pc.inHand, Pc.taken, Pc.receivesOn]

theorem poolInv_openErr {id : I} {s : SlotId} (e : E) (hI : PoolInv σ)
    (hp : σ.pc c = .opening id s) : PoolInv ((σ.countOpen s).goto c (.openFailed id s e)) := by
  cases hI
  constructor <;> simp only [Pool.goto, Pool.countOpen, Function.update_apply] <;>
    first | assumption | grind [Pc.opener, Pc.inHand, Pc.taken, Pc.receivesOn]

theorem poolInv_openOk {id : I} {s : SlotId} (hI : PoolInv σ) (hp : σ.pc c = .opening id s) :
    PoolInv ({ σ.countOpen s with nstores := σ.nstores + 1 }.goto c (.opened id s σ.nstores)) := by
  cases hI
  constructor <;> simp only [Pool.goto, Pool.countOpen, Function.update_apply] <;>
    first | assumption | grind [Pc.opener, Pc.inHand, Pc.taken, Pc.receivesOn]

/-- The opener closes `done` and returns. -/
theorem poolInv_finish {s : SlotId} (r : Ret E) (hI : PoolInv σ)
    (hro : (σ.pc c).role = (some s, none, [])) : PoolInv ((σ.closeDone s).goto c (.returned r)) := by
  obtain ⟨ho, hh, ht⟩ : (σ.pc c).opener = some s ∧ (σ.pc c).inHand = none ∧
      (σ.pc c).taken = [] := by simpa [Pc.role] using hro
  cases hI
  constructor <;> simp only [Pool.goto, Pool.closeDone, Function.update_apply] <;>
    first | assumption | grind [Pc.opener, Pc.inHand, Pc.taken, Pc.receivesOn]

theorem poolInv_closeRejected {s : SlotId} {st : StoreId} (hI : PoolInv σ)
    (hp : σ.pc c = .rejected s st) : PoolInv ((σ.closeStore st).goto c (.rejecting s)) := by
  cases hI
  constructor <;> simp only [Pool.goto, Pool.closeStore, Function.update_apply] <;>
    first | assumption | grind [Pc.opener, Pc.inHand, Pc.taken, Pc.receivesOn]

theorem poolInv_publish {s : SlotId} {st : StoreId} (hI : PoolInv σ)
    (hp : σ.pc c = .confirmed s st) : PoolInv ((σ.setStore s st).goto c (.publishing s)) := by
  cases hI
  constructor <;> simp only [Pool.goto, Pool.setStore, Function.update_apply] <;>
    first | assumption | grind [Pc.opener, Pc.inHand, Pc.taken, Pc.receivesOn]

theorem poolInv_evictTake {id : I} {s : SlotId} (hI : PoolInv σ)
    (hp : σ.pc c = .called (.evict id)) (hs : σ.slots id = some s) :
    PoolInv ((σ.delete id (.call c)).goto c (.evicting s)) := by
  cases hI
  constructor <;> simp only [Pool.goto, Pool.delete, hs, Function.update_apply] <;>
    first | assumption | grind [Pc.opener, Pc.inHand, Pc.taken, Pc.receivesOn]

/-- Settling a slot takes it, and only it, off the call's list. -/
theorem taken_settle {s : SlotId} {p : Pc I E} (hI : PoolInv σ)
    (ht : (σ.pc c).taken = s :: p.taken) (d : CallId) (t : SlotId) :
    t ∈ (if d = c then p else σ.pc d).taken ↔
      (if t = s then Holder.settled else σ.holder t) = Holder.call d := by
  have hnd := hI.takenOnce c
  rw [ht, List.nodup_cons] at hnd
  have hs : σ.holder s = .call c := (hI.taken c s).mp (ht ▸ List.mem_cons_self)
  by_cases hd : d = c
  · have h := hI.taken c t
    rw [ht, List.mem_cons] at h
    grind
  · have h := hI.taken d t
    grind

theorem poolInv_settle {s : SlotId} {p : Pc I E} (hI : PoolInv σ)
    (hro : (σ.pc c).role = (none, none, s :: p.taken)) (hro' : p.role = (none, none, p.taken))
    (hd : (σ.slot s).done = true) (hr : ∀ s, p.receivesOn = some s → s ∈ p.taken)
    (hn : ∀ id s, p ≠ .opening id s) : PoolInv ((σ.settle s).goto c p) := by
  obtain ⟨ho, hh, ht⟩ : (σ.pc c).opener = none ∧ (σ.pc c).inHand = none ∧
      (σ.pc c).taken = s :: p.taken := by simpa [Pc.role] using hro
  obtain ⟨ho', hh'⟩ : p.opener = none ∧ p.inHand = none := by simpa [Pc.role] using hro'
  have hT := taken_settle hI ht
  cases hI
  constructor <;> simp only [Pool.goto, Pool.settle, Function.update_apply] <;>
    first | assumption | grind

section CloseTake

variable {l : List SlotId} (hI : PoolInv σ) (hm : ∀ s, s ∈ l ↔ ∃ id, σ.slots id = some s)

include hI hm

/-- The slots `Close` takes are the ones the map holds. -/
theorem mem_l_iff (s : SlotId) : s ∈ l ↔ ∃ id, σ.holder s = .inMap id :=
  (hm s).trans (exists_congr fun id => hI.inMap id s)

theorem receives_closeTake (d : CallId) (s : SlotId)
    (h : (if d = c then .draining l [] else σ.pc d).receivesOn = some s) : s < σ.nslots := by
  split at h
  · have hs : s ∈ l := by
      cases l with
      | nil => cases h
      | cons t l => cases h; exact List.mem_cons_self
    obtain ⟨id, hid⟩ := (hm s).mp hs
    exact hI.slots_lt hid
  · exact hI.receives d s h

theorem taken_closeTake (hp : σ.pc c = .called .close) (d : CallId) (s : SlotId) :
    s ∈ (if d = c then .draining l [] else σ.pc d).taken ↔
      (if s ∈ l then Holder.call c else σ.holder s) = .call d := by
  have hc := hI.taken c s
  rw [hp] at hc
  have hd := hI.taken d s
  have hs := mem_l_iff hI hm s
  by_cases h : s ∈ l
  · obtain ⟨id, hid⟩ := hs.mp h
    rw [hid] at hd
    by_cases hdc : d = c
    · simp [hdc, h, Pc.taken]
    · simp [hdc, h, hd, Ne.symm hdc]
  · by_cases hdc : d = c
    · simp [hdc, h, Pc.taken, ← hc]
    · simp [hdc, h, hd]

theorem poolInv_closeTake (hp : σ.pc c = .called .close) (hl : l.Nodup) :
    PoolInv ((σ.takeAll c l).goto c (.draining l [])) := by
  have hmap := mem_l_iff hI hm
  have hR := receives_closeTake (c := c) hI hm
  have hT := taken_closeTake hI hm hp
  cases hI
  constructor <;> simp only [Pool.goto, Pool.takeAll, Function.update_apply] <;>
    first | assumption | grind [Pc.opener, Pc.inHand, Pc.taken]

end CloseTake

end Ops

/-! ## 3. Steps and runs -/

/-- **Every step keeps the invariant.** -/
theorem poolInv_step {σ σ' : Pool I E} {c : CallId} (hI : PoolInv σ) (hs : Step σ c σ') :
    PoolInv σ' := by
  cases hs with
  | invoke op hp =>
      exact poolInv_goto hI (by rw [hp]; rfl) (by simp [Pc.receivesOn]) (by simp) (by simp [hp])
  | refuse id hp hc =>
      exact poolInv_goto hI (by rw [hp]; rfl) (by simp [Pc.receivesOn]) (by simp) (by simp [hp])
  | find id s hp hc hs =>
      refine poolInv_goto hI (by rw [hp]; rfl) (fun t ht => ?_) (by simp) (by simp [hp])
      cases ht
      exact hI.slots_lt hs
  | make id hp hc hs => exact poolInv_make id hI hp hc hs
  | awake s hp hd =>
      exact poolInv_goto hI (by rw [hp]; rfl) (by simp [Pc.receivesOn]) (by simp) (by simp [hp])
  | openErr id s e hp => exact poolInv_openErr e hI hp
  | openOk id s hp => exact poolInv_openOk hI hp
  | dropFailed id s e hp =>
      have hp' : (σ.delete id .dropped).pc c = .openFailed id s e := hp
      exact poolInv_goto (poolInv_drop id hI) (by rw [hp']; rfl) (by simp [Pc.receivesOn])
        (by simp) (by simp [hp'])
  | finishFailed s e hp =>
      have hs := (hI.opener c s (by rw [hp]; rfl)).2.1
      have hp' : (σ.setErr s (.open e)).pc c = .failing s e := hp
      exact poolInv_finish _ (poolInv_setErr s _ hI hs) (by rw [hp']; rfl)
  | recheckEvicted id s st hp he =>
      have hp' : (σ.delete id .dropped).pc c = .opened id s st := hp
      exact poolInv_goto (poolInv_drop id hI) (by rw [hp']; rfl) (by simp [Pc.receivesOn])
        (by simp) (by simp [hp'])
  | recheckOk id s st hp hc hs =>
      exact poolInv_goto hI (by rw [hp]; rfl) (by simp [Pc.receivesOn]) (by simp) (by simp [hp])
  | closeRejected s st hp => exact poolInv_closeRejected hI hp
  | finishRejected s hp =>
      have hs := (hI.opener c s (by rw [hp]; rfl)).2.1
      have hp' : (σ.setErr s .evictedDuringOpen).pc c = .rejecting s := hp
      exact poolInv_finish _ (poolInv_setErr s _ hI hs) (by rw [hp']; rfl)
  | publish s st hp => exact poolInv_publish hI hp
  | finishPublish s hp => exact poolInv_finish _ hI (by rw [hp]; rfl)
  | evictMiss id hp hs =>
      exact poolInv_goto hI (by rw [hp]; rfl) (by simp [Pc.receivesOn]) (by simp) (by simp [hp])
  | evictTake id s hp hs => exact poolInv_evictTake hI hp hs
  | evictClose s hp hd =>
      exact poolInv_settle hI (by rw [hp]; rfl) rfl hd (by simp [Pc.receivesOn]) (by simp)
  | closeAgain hp hc =>
      exact poolInv_goto hI (by rw [hp]; rfl) (by simp [Pc.receivesOn]) (by simp) (by simp [hp])
  | closeTake l hp hc hl hm => exact poolInv_closeTake hI hm hp hl
  | drain s l errs r hp hd hr =>
      refine poolInv_settle hI (by rw [hp]; rfl) rfl hd (fun t ht => ?_) (by simp)
      cases l with
      | nil => cases ht
      | cons u l => cases ht; exact List.mem_cons_self
  | drained errs hp =>
      exact poolInv_goto hI (by rw [hp]; rfl) (by simp [Pc.receivesOn]) (by simp) (by simp [hp])

/-- **The invariant at the end of every run.** -/
theorem poolInv_run {σ : Pool I E} {l : List (Pool I E × CallId)}
    (h : Trace Step newConnPool l σ) : PoolInv σ :=
  h.inv poolInv_new fun _ _ _ => poolInv_step

end DevDashboard.Cmd
