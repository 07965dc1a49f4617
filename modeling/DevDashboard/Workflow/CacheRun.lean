/-
  File:      DevDashboard/Workflow/CacheRun.lean
  Subject:   CONCURRENT CALLS, THE SUMMARY CACHE AND A STORE THAT DAPR WRITES TO
             (`loadSummaries`, `loadWithMeta`, `bulkGetChunked`, `summaryCache`).

  A key is an instance and a slot (`slotKey` is the text of it). `BulkGet` reads its keys in
  chunks of `bulkGetChunk`, one atomic read each; anything may happen between two reads. A call
  reads the metadata records and the first history entries of its references; then, reference by
  reference and in any order, it takes the summary from the cache, or reads the history that the
  record declares, again in chunks, and stores the summary.

  Dapr's part is `Transaction`: an instance's record and history change together; within an
  incarnation and a generation the history is only appended to, and a usable `HistoryLength`
  counts it; the generation grows within an incarnation; the first events of different
  incarnations or generations of an instance differ.

  The incarnation, the `log` of what was ever written and a call's `snap` are there for the
  statements only: no guard reads them.
-/
import DevDashboard.Lib.Epochs
import DevDashboard.Lib.Machine
import DevDashboard.Workflow.List
import Mathlib.Logic.Function.Basic

namespace DevDashboard.Workflow.CacheRun

open Lib StateStore

/-! ## 1. What Dapr writes -/

/-- An instance: its namespace, app-id and id. -/
structure Ident where
  ns : Str
  ref : InstanceRef
  deriving DecidableEq

/-- What a key of an instance holds. -/
inductive Slot where
  | metadata
  | customStatus
  | history (i : Nat)
  deriving DecidableEq

def Slot.suffix : Slot → Str
  | .metadata => suffixMetadata
  | .customStatus => suffixCustomStatus
  | .history i => historyKey i

/-- The text of a key. -/
def slotKey (ns : Str) (r : InstanceRef) (sl : Slot) : Str :=
  instancePrefix ns r.appID r.id ++ sl.suffix

/-- The state of an instance in the store. -/
structure Inst where
  inc : Nat
  gen : Nat
  record : Bytes
  history : List Bytes
  customStatus : Option Bytes := none
  deriving DecidableEq

def Inst.value (x : Inst) : Slot → Option Bytes
  | .metadata => some x.record
  | .customStatus => x.customStatus
  | .history i => x.history[i]?

/-- How one state of an instance follows on what was there. -/
inductive Follows (log : List Inst) (cur : Option Inst) (new : Inst) : Prop where
  | create (hcur : cur = none) (hinc : ∀ x ∈ log, x.inc ≠ new.inc)
  | append (x : Inst) (hcur : cur = some x) (hinc : new.inc = x.inc) (hgen : new.gen = x.gen)
      (hp : x.history <+: new.history)
  | continueAsNew (x : Inst) (hcur : cur = some x) (hinc : new.inc = x.inc) (hgen : x.gen < new.gen)

/-- **One transaction of Dapr** on an instance, after the states in `log`. -/
structure Transaction (cd : Codec) (log : List Inst) (cur : Option Inst) (new : Inst) : Prop where
  follows : Follows log cur new
  counts : ∀ n, historyLength cd (some new.record) = some n → n = new.history.length
  first : ∀ x ∈ log, ∀ b, x.history.head? = some b → new.history.head? = some b →
    x.inc = new.inc ∧ x.gen = new.gen

/-! ## 2. Calls -/

/-- `bulkGetChunk`. -/
def bulkGetChunk : Nat := 100

/-- Where a call is with one reference. `loading` is `loadWithMeta` in its `BulkGet`: the declared
    length, the slots still to read and the values read. -/
inductive Work where
  | waiting
  | loading (n : Nat) (todo : List Slot) (got : Slot → Option Bytes)
  | done

/-- One call of `loadSummaries`: the keys its `BulkGet` has still to read, the values read, the
    state each instance was in when its metadata record was read, and the work on each
    reference. -/
structure Call where
  ns : Str
  refs : List InstanceRef
  todo : List (InstanceRef × Slot)
  got : InstanceRef × Slot → Option Bytes
  snap : InstanceRef → Option Inst
  work : InstanceRef → Work

namespace Call

/-- A call that has read nothing yet: the metadata keys, then the first history keys. -/
def fresh (ns : Str) (refs : List InstanceRef) : Call where
  ns := ns
  refs := refs
  todo := refs.map (·, .metadata) ++ refs.map (·, .history 0)
  got _ := none
  snap _ := none
  work _ := .waiting

def ident (c : Call) (r : InstanceRef) : Ident := ⟨c.ns, r⟩

/-- The keys of the next read. -/
def chunk (c : Call) : List (InstanceRef × Slot) := c.todo.take bulkGetChunk

/-- The next read of the call's `BulkGet`. -/
def readChunk (store : Ident → Option Inst) (c : Call) : Call :=
  { c with
    todo := c.todo.drop bulkGetChunk
    got := fun k => if k ∈ c.chunk then (store (c.ident k.1)).bind (·.value k.2) else c.got k
    snap := fun r => if (r, .metadata) ∈ c.chunk then store (c.ident r) else c.snap r }

/-- `metas[metaKeys[i]]`. -/
def record (c : Call) (r : InstanceRef) : Option Bytes := c.got (r, .metadata)

/-- `metas[firstKeys[i]]`. -/
def first (c : Call) (r : InstanceRef) : Option Bytes := c.got (r, .history 0)

def setWork (c : Call) (r : InstanceRef) (w : Work) : Call :=
  { c with work := Function.update c.work r w }

end Call

/-- The slots a history length declares. -/
def declaredSlots (n : Nat) : List Slot := (List.range n).map .history ++ [.customStatus]

/-- `loadWithMeta` before its first read. Without a usable length the instance is loaded by a
    scan, and nothing is stored. -/
def Work.load (cd : Codec) (record : Option Bytes) : Work :=
  match historyLength cd record with
  | some n => .loading n (declaredSlots n) fun _ => none
  | none => .done

/-- What `loadWithMeta` has read when it is through. -/
def loadedValues (ns : Str) (r : InstanceRef) (n : Nat) (got : Slot → Option Bytes) :
    List (Str × Option Bytes) :=
  (declaredSlots n).map fun sl => (slotKey ns r sl, got sl)

/-- The summary of what `loadWithMeta` has read. -/
def loadedSummary (cd : Codec) (ns : Str) (r : InstanceRef) (n : Nat) (got : Slot → Option Bytes) :
    ExecutionSummary :=
  (decodeInstance cd r.appID r.id (instancePrefix ns r.appID r.id)
    (loadedValues ns r n got)).summary

/-! ## 3. Runs -/

structure State where
  store : Ident → Option Inst
  log : Ident → List Inst
  cache : SummaryCache
  calls : Nat → Call

/-- An empty store, an empty cache, no call. -/
def State.init (max : Nat) : State where
  store _ := none
  log _ := []
  cache := newSummaryCache max
  calls _ := Call.fresh [] []

def State.setCall (s : State) (c : Nat) (call : Call) : State :=
  { s with calls := Function.update s.calls c call }

/-- Who acts. -/
inductive Act where
  | write (i : Ident) (new : Inst)
  | purge (i : Ident)
  | start (c : Nat) (ns : Str) (refs : List InstanceRef)
  | readMetas (c : Nat)
  | take (c : Nat) (r : InstanceRef) (sum : ExecutionSummary)
  | miss (c : Nat) (r : InstanceRef)
  | readHistory (c : Nat) (r : InstanceRef)
  | put (c : Nat) (r : InstanceRef)
  | prune (ns appID : Str) (keep : List Str)

/-- A reference of a call whose `BulkGet` is through, not looked up in the cache yet. -/
structure Waiting (call : Call) (r : InstanceRef) : Prop where
  mem : r ∈ call.refs
  read : call.todo = []
  work : call.work r = .waiting

/-- **One step** of Dapr, of a call, or of `Stats` pruning the cache. -/
inductive Step (cd : Codec) (s : State) : Act → State → Prop where
  | write {i : Ident} {new : Inst} (h : Transaction cd (s.log i) (s.store i) new) :
      Step cd s (.write i new)
        { s with store := Function.update s.store i (some new)
                 log := Function.update s.log i (new :: s.log i) }
  | purge (i : Ident) : Step cd s (.purge i) { s with store := Function.update s.store i none }
  | start (c : Nat) (ns : Str) (refs : List InstanceRef) :
      Step cd s (.start c ns refs) (s.setCall c (.fresh ns refs))
  | readMetas {c : Nat} (h : (s.calls c).todo ≠ []) :
      Step cd s (.readMetas c) (s.setCall c ((s.calls c).readChunk s.store))
  | take {c : Nat} {r : InstanceRef} {sum : ExecutionSummary} (hw : Waiting (s.calls c) r)
      (h : s.cache.get (r.cacheKey (s.calls c).ns) ((s.calls c).record r) ((s.calls c).first r) =
        some sum) :
      Step cd s (.take c r sum) (s.setCall c ((s.calls c).setWork r .done))
  | miss {c : Nat} {r : InstanceRef} (hw : Waiting (s.calls c) r)
      (h : s.cache.get (r.cacheKey (s.calls c).ns) ((s.calls c).record r) ((s.calls c).first r) =
        none) :
      Step cd s (.miss c r)
        (s.setCall c ((s.calls c).setWork r (.load cd ((s.calls c).record r))))
  | readHistory {c : Nat} {r : InstanceRef} {n : Nat} {todo : List Slot} {got : Slot → Option Bytes}
      (h : (s.calls c).work r = .loading n todo got) (hne : todo ≠ []) :
      Step cd s (.readHistory c r)
        (s.setCall c ((s.calls c).setWork r (.loading n (todo.drop bulkGetChunk) fun sl =>
          if sl ∈ todo.take bulkGetChunk then
            (s.store ((s.calls c).ident r)).bind (·.value sl) else got sl)))
  | put {c : Nat} {r : InstanceRef} {n : Nat} {got : Slot → Option Bytes}
      (h : (s.calls c).work r = .loading n [] got) :
      Step cd s (.put c r)
        { s.setCall c ((s.calls c).setWork r .done) with
          cache := s.cache.put (r.cacheKey (s.calls c).ns)
            ⟨(s.calls c).ns, r.appID, ((s.calls c).record r).getD [],
              ((s.calls c).first r).getD [], loadedSummary cd (s.calls c).ns r n got⟩ }
  | prune (ns appID : Str) (keep : List Str) :
      Step cd s (.prune ns appID keep) { s with cache := s.cache.prune ns appID keep }

/-! ## 4. What the summaries should be -/

/-- The events of a history: empty and undecodable entries are skipped. -/
def eventsOf (cd : Codec) (history : List Bytes) : List ProtoEvent :=
  history.filterMap fun b => if b = [] then none else cd.event b

/-- The summary `DecodeExecution` gives for a history. -/
def historySummary (cd : Codec) (r : InstanceRef) (history : List Bytes) : ExecutionSummary :=
  (decodeExecution cd r.appID r.id (eventsOf cd history) []).summary

/-- durabletask's runtime state does not derive anything from the custom status: it only carries
    it. -/
def CarriesCustomStatus (cd : Codec) : Prop :=
  ∀ id cs events, cd.runtimeState id cs events = cd.runtimeState id none events

/-- An instance is still in the incarnation and generation in which its record was read. -/
def Still (cur snap : Option Inst) : Prop :=
  ∀ x, snap = some x → ∃ y, cur = some y ∧ y.inc = x.inc ∧ y.gen = x.gen

/-- **A step that does not read across a change**: a read that a call makes for an instance after
    the one that read its metadata record finds it in the same incarnation and generation. (A
    NUL in a namespace or an app-id could give two instances one cache key.) -/
def Undisturbed (s : State) : Act → Prop
  | .start _ ns refs => nul ∉ ns ∧ ∀ r ∈ refs, nul ∉ r.appID
  | .readMetas c => ∀ r, (r, .history 0) ∈ (s.calls c).chunk → (r, .metadata) ∉ (s.calls c).chunk →
      Still (s.store ((s.calls c).ident r)) ((s.calls c).snap r)
  | .readHistory c r => Still (s.store ((s.calls c).ident r)) ((s.calls c).snap r)
  | _ => True

end DevDashboard.Workflow.CacheRun
