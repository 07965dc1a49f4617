/-
  File:      DevDashboard/Workflow/CacheCoherence.lean
  Subject:   WHAT THE SUMMARY CACHE SERVES IN A RUN.

  * `loadedSummary_eq` -- what `loadWithMeta` makes of a history it has read whole is what
    `DecodeExecution` makes of it;
  * `step_inv` -- what every step keeps, if it does not read across a change;
  * `take_coherent` -- in a run of such steps every summary taken from the cache is that of the
    history the store held when the metadata record was read;
  * `take_incoherent` -- a run with a purge and a re-creation between two reads takes another.
-/
import DevDashboard.Workflow.CacheRun

namespace DevDashboard.Workflow.CacheRun

open Lib StateStore
open Lib.Epochs (Version Write Consistent)

/-! ## 1. Decoding what was read -/

theorem lookup_map_of_inj {α β : Type} {f : α → Str} {g : α → β} {l : List α} {a : α} (ha : a ∈ l)
    (hinj : ∀ b ∈ l, f b = f a → b = a) : (l.map fun x => (f x, g x)).lookup (f a) = some (g a) := by
  induction l with
  | nil => cases ha
  | cons b l ih =>
      rw [List.map_cons, List.lookup_cons]
      by_cases hb : f a = f b
      · obtain rfl := hinj b List.mem_cons_self hb.symm
        simp
      · rw [beq_eq_false_iff_ne.mpr hb]
        have hne : a ≠ b := fun h => hb (h ▸ rfl)
        exact ih ((List.mem_cons.mp ha).resolve_left hne)
          fun x hx => hinj x (List.mem_cons_of_mem b hx)

theorem historyKey_inj {i j : Nat} (hi : i < 1000000) (hj : j < 1000000)
    (h : historyKey i = historyKey j) : i = j := by
  rcases Nat.lt_trichotomy i j with hlt | heq | hlt
  · have := historyKey_lt [] hlt hj
    simp only [List.nil_append, h] at this
    exact absurd this (lt_irrefl _)
  · exact heq
  · have := historyKey_lt [] hlt hi
    simp only [List.nil_append, h] at this
    exact absurd this (lt_irrefl _)

theorem sortStrings_of_pairwise {ks : List Str} (h : ks.Pairwise (· < ·)) : sortStrings ks = ks :=
  (sortStrings_perm ks).eq_of_pairwise' (pairwise_sortStrings ks) (h.imp le_of_lt)

section Decode

variable {ns : Str} {r : InstanceRef} {n : Nat} {got : Slot → Option Bytes}

theorem historyPrefix_slotKey (sl : Slot) :
    Str.hasPrefix (Str.trimPrefix (slotKey ns r sl) (instancePrefix ns r.appID r.id))
      historyPrefix = match sl with | .history _ => true | _ => false := by
  rw [slotKey, Str.trimPrefix_append]
  cases sl with
  | metadata => decide
  | customStatus => decide
  | history i => exact Str.hasPrefix_iff.mpr (prefix_historyKey i)

/-- The history keys among what was read: those of the entries that are there, in order. -/
theorem historyKeys_loadedValues :
    historyKeys (instancePrefix ns r.appID r.id) (loadedValues ns r n got) =
      ((List.range n).filter fun i => hasValue (got (.history i))).map
        fun i => slotKey ns r (.history i) := by
  unfold historyKeys loadedValues declaredSlots
  rw [List.map_append, List.filter_append, List.map_append]
  have hcs : ([Slot.customStatus].map fun sl => (slotKey ns r sl, got sl)).filter (fun kv =>
      Str.hasPrefix (Str.trimPrefix kv.1 (instancePrefix ns r.appID r.id)) historyPrefix &&
        hasValue kv.2) = [] := by
    simp [historyPrefix_slotKey]
  rw [hcs, List.map_map, List.filter_map, List.map_map]
  simp [Function.comp_def, historyPrefix_slotKey]

theorem lookup_loadedValues (hn : n ≤ maxHistoryEntries) {i : Nat} (hi : i < n) :
    (loadedValues ns r n got).lookup (slotKey ns r (.history i)) = some (got (.history i)) := by
  refine lookup_map_of_inj (f := slotKey ns r) (g := got) ?_ fun b hb he => ?_
  · exact List.mem_append_left _ (List.mem_map_of_mem (List.mem_range.mpr hi))
  · have hsuf := List.append_cancel_left he
    unfold maxHistoryEntries at hn
    rcases List.mem_append.mp hb with hb | hb
    · obtain ⟨j, hj, rfl⟩ := List.mem_map.mp hb
      have hj := List.mem_range.mp hj
      rw [historyKey_inj (i := j) (j := i) (by omega) (by omega) hsuf]
    · rw [List.mem_singleton.mp hb] at hsuf
      have hp : historyPrefix <+: suffixCustomStatus :=
        (show suffixCustomStatus = historyKey i from hsuf) ▸ prefix_historyKey i
      exact absurd hp (by decide)

/-- A function of the entries of a list, by their numbers. -/
theorem filterMap_range_getElem? {α β : Type} (f : Option α → Option β) (l : List α) :
    (List.range l.length).filterMap (fun i => f l[i]?) = l.filterMap fun a => f (some a) := by
  induction l with
  | nil => rfl
  | cons a l ih =>
      rw [List.length_cons, List.range_succ_eq_map, List.filterMap_cons, List.filterMap_map,
        List.filterMap_cons]
      simp only [Function.comp_def, List.getElem?_cons_zero, List.getElem?_cons_succ, ih]

theorem sortStrings_loadedValues (hn : n ≤ maxHistoryEntries) :
    sortStrings (historyKeys (instancePrefix ns r.appID r.id) (loadedValues ns r n got)) =
      ((List.range n).filter fun i => hasValue (got (.history i))).map
        fun i => slotKey ns r (.history i) := by
  rw [historyKeys_loadedValues]
  refine sortStrings_of_pairwise (List.pairwise_map.mpr ?_)
  refine (List.pairwise_lt_range.sublist List.filter_sublist).imp_of_mem fun {i j} _ hj hlt => ?_
  have hj := List.mem_range.mp (List.mem_filter.mp hj).1
  unfold maxHistoryEntries at hn
  exact historyKey_lt _ hlt (by omega)

end Decode

theorem summary_decodeExecution {cd : Codec} (hcs : CarriesCustomStatus cd) (app id : Str)
    (events : List ProtoEvent) (cs : Str) :
    (decodeExecution cd app id events cs).summary = (decodeExecution cd app id events []).summary := by
  unfold decodeExecution
  simp only [hcs id (if cs = [] then none else some cs) events, if_true]

/-- **What `loadWithMeta` makes of a history it has read whole.** -/
theorem loadedSummary_eq {cd : Codec} (hcs : CarriesCustomStatus cd) {ns : Str} {r : InstanceRef}
    {history : List Bytes} {got : Slot → Option Bytes}
    (hn : history.length ≤ maxHistoryEntries)
    (hgot : ∀ i < history.length, got (.history i) = history[i]?) :
    loadedSummary cd ns r history.length got = historySummary cd r history := by
  have hevents : (sortStrings (historyKeys (instancePrefix ns r.appID r.id)
      (loadedValues ns r history.length got))).filterMap (fun hk =>
        cd.event (((loadedValues ns r history.length got).lookup hk).join.getD [])) =
      eventsOf cd history := by
    rw [sortStrings_loadedValues hn, List.filterMap_map, List.filterMap_filter]
    refine Eq.trans (List.filterMap_congr fun i hi => ?_) ((filterMap_range_getElem? (fun v =>
      if hasValue v then cd.event (v.getD []) else none) history).trans
        (List.filterMap_congr fun b _ => ?_))
    · have hi := List.mem_range.mp hi
      simp only [Function.comp_def, lookup_loadedValues hn hi, Option.join_some, hgot i hi]
    · by_cases hb : b = [] <;> simp [hasValue, hb]
  unfold loadedSummary decodeInstance
  simp only
  rw [hevents, summary_decodeExecution hcs]
  rfl

/-! ## 2. The invariant -/

/-- An instance's state as a version of its history; the epoch is the incarnation and the
    generation. -/
def Inst.version (x : Inst) : Version (Nat × Nat) Bytes := ⟨(x.inc, x.gen), x.history⟩

/-- What Dapr wrote on one instance. -/
structure Written (cd : Codec) (log : List Inst) (cur : Option Inst) : Prop where
  current : ∀ c, cur = some c → c ∈ log
  versions : Consistent (log.map Inst.version) (cur.map Inst.version)
  gens : ∀ c, cur = some c → ∀ x ∈ log, x.inc = c.inc → x.gen ≤ c.gen
  counts : ∀ x ∈ log, ∀ n, historyLength cd (some x.record) = some n → n = x.history.length

/-- An entry of the cache: the summary of a state the store once held, under bytes that go with
    it. -/
def Entry (cd : Codec) (log : Ident → List Inst) (k : Str) (e : CachedSummary) : Prop :=
  ∃ (i : Ident) (x : Inst) (n : Nat), nul ∉ i.ns ∧ nul ∉ i.ref.appID ∧ k = i.ref.cacheKey i.ns ∧
    x ∈ log i ∧ e.record = x.record ∧ historyLength cd (some x.record) = some n ∧
    x.history.head? = some e.first ∧ e.summary = historySummary cd i.ref x.history

/-- A call's `loadWithMeta` of one reference: what it has read is the history of `snap`. -/
def LoadInv (cd : Codec) (call : Call) (r : InstanceRef) : Work → Prop
  | .loading n todo got => r ∈ call.refs ∧ call.todo = [] ∧
      historyLength cd (call.record r) = some n ∧
      ∀ i < n, .history i ∉ todo → ∀ x, call.snap r = some x → got (.history i) = x.history[i]?
  | _ => True

/-- What a call has read goes with the states in `snap`. -/
structure CallInv (cd : Codec) (log : Ident → List Inst) (call : Call) : Prop where
  names : nul ∉ call.ns ∧ ∀ r ∈ call.refs, nul ∉ r.appID
  order : call.todo <:+ call.refs.map (·, .metadata) ++ call.refs.map (·, .history 0)
  snapped : ∀ r x, call.snap r = some x → x ∈ log (call.ident r)
  record : ∀ r ∈ call.refs, (r, .metadata) ∉ call.todo →
    call.record r = (call.snap r).map Inst.record
  first : ∀ r ∈ call.refs, (r, .history 0) ∉ call.todo → ∀ x, call.snap r = some x →
    x.history ≠ [] → call.first r = x.history.head?
  loading : ∀ r, LoadInv cd call r (call.work r)

/-- **The invariant of the runs.** -/
structure Inv (cd : Codec) (s : State) : Prop where
  written : ∀ i, Written cd (s.log i) (s.store i)
  cache : ∀ k e, (k, e) ∈ s.cache.entries → Entry cd s.log k e
  calls : ∀ c, CallInv cd s.log (s.calls c)

section Invariant

variable {cd : Codec} {log log' : Ident → List Inst} {s : State}

theorem CallInv.fresh {ns : Str} {refs : List InstanceRef} (hns : nul ∉ ns)
    (hrefs : ∀ r ∈ refs, nul ∉ r.appID) : CallInv cd log (.fresh ns refs) where
  names := ⟨hns, hrefs⟩
  order := List.suffix_refl _
  snapped _ _ h := nomatch h
  record r hr h := by
    exfalso
    exact h (List.mem_append_left _ (List.mem_map_of_mem hr))
  first _ _ _ _ h := nomatch h
  loading _ := trivial

theorem inv_init (max : Nat) : Inv cd (.init max) where
  written _ := ⟨fun _ h => (nomatch h), Consistent.empty, fun _ h => (nomatch h),
    fun _ h => (nomatch h)⟩
  cache _ _ h := nomatch h
  calls _ := CallInv.fresh List.not_mem_nil fun _ h => (nomatch h)

/-- Nothing that was written is forgotten, so what is said about the past stays true. -/
theorem Entry.mono (hlog : ∀ i, log i ⊆ log' i) {k : Str} {e : CachedSummary}
    (h : Entry cd log k e) : Entry cd log' k e := by
  obtain ⟨i, x, n, hns, happ, hk, hx, hrest⟩ := h
  exact ⟨i, x, n, hns, happ, hk, hlog i hx, hrest⟩

theorem CallInv.mono (hlog : ∀ i, log i ⊆ log' i) {call : Call} (h : CallInv cd log call) :
    CallInv cd log' call :=
  { h with snapped := fun r x hx => hlog _ (h.snapped r x hx) }

theorem Inv.setCall (h : Inv cd s) {c : Nat} {call : Call} (hc : CallInv cd s.log call) :
    Inv cd (s.setCall c call) where
  written := h.written
  cache := h.cache
  calls c' := by
    unfold State.setCall
    by_cases he : c' = c
    · subst he
      simpa using hc
    · simpa [he] using h.calls c'

/-! ## 3. Dapr's steps -/

theorem Written.fresh_epoch {l : List Inst} {cur : Option Inst} (h : Written cd l cur)
    {new : Inst} (hf : Follows l cur new) :
    (∃ c, cur = some c ∧ new.version.epoch = c.version.epoch ∧ c.history <+: new.history) ∨
      ∀ x ∈ l, x.version.epoch ≠ new.version.epoch := by
  cases hf with
  | create hcur hinc => exact .inr fun x hx he => hinc x hx (Prod.mk.inj he).1
  | append x hcur hinc hgen hp => exact .inl ⟨x, hcur, by simp [Inst.version, hinc, hgen], hp⟩
  | continueAsNew x hcur hinc hgen =>
      refine .inr fun y hy he => ?_
      obtain ⟨hi, hg⟩ := Prod.mk.inj he
      have := h.gens x hcur y hy (hi.trans hinc)
      omega

theorem Written.write {l : List Inst} {cur : Option Inst} (h : Written cd l cur) {new : Inst}
    (ht : Transaction cd l cur new) : Written cd (new :: l) (some new) := by
  refine ⟨fun c hc => Option.some.inj hc ▸ List.mem_cons_self, ?_, fun c hc x hx hinc => ?_,
    fun x hx n hn => ?_⟩
  · refine h.versions.write ⟨?_, ?_⟩
    · rcases h.fresh_epoch ht.follows with ⟨c, hcur, hep, hp⟩ | hfresh
      · exact .inl ⟨c.version, by rw [hcur]; rfl, hep, hp⟩
      · refine .inr fun v hv => ?_
        obtain ⟨x, hx, rfl⟩ := List.mem_map.mp hv
        exact hfresh x hx
    · intro v hv b hb hnew
      obtain ⟨x, hx, rfl⟩ := List.mem_map.mp hv
      obtain ⟨hi, hg⟩ := ht.first x hx b hb hnew
      exact Prod.ext hi hg
  · obtain rfl := Option.some.inj hc
    rcases List.mem_cons.mp hx with rfl | hx
    · exact le_refl _
    · cases ht.follows with
      | create hcur hfresh => exact absurd hinc (hfresh x hx)
      | append y hcur hi hg _ =>
          have := h.gens y hcur x hx (hinc.trans hi)
          omega
      | continueAsNew y hcur hi hg =>
          have := h.gens y hcur x hx (hinc.trans hi)
          omega
  · rcases List.mem_cons.mp hx with rfl | hx
    · exact ht.counts n hn
    · exact h.counts x hx n hn

theorem Written.purge {l : List Inst} {cur : Option Inst} (h : Written cd l cur) :
    Written cd l none :=
  ⟨fun _ hc => (nomatch hc), h.versions.clear, fun _ hc => (nomatch hc), h.counts⟩

/-- Within an incarnation and a generation, entries stay. -/
theorem Written.getElem?_eq {l : List Inst} {cur : Option Inst} (h : Written cd l cur) {x : Inst}
    (hx : x ∈ l) (hs : Still cur (some x)) {i : Nat} (hi : i < x.history.length) :
    cur.bind (·.value (.history i)) = x.history[i]? := by
  obtain ⟨y, rfl, hinc, hgen⟩ := hs x rfl
  exact h.versions.getElem?_eq (w := y.version) rfl (List.mem_map_of_mem hx)
    (Prod.ext hinc.symm hgen.symm) hi

theorem Inv.write (h : Inv cd s) {i : Ident} {new : Inst}
    (ht : Transaction cd (s.log i) (s.store i) new) :
    Inv cd { s with store := Function.update s.store i (some new)
                    log := Function.update s.log i (new :: s.log i) } := by
  have hlog : ∀ j, s.log j ⊆ Function.update s.log i (new :: s.log i) j := by
    intro j
    by_cases hj : j = i
    · subst hj
      simp
    · simp [hj]
  refine ⟨fun j => ?_, fun k e he => (h.cache k e he).mono hlog, fun c => (h.calls c).mono hlog⟩
  by_cases hj : j = i
  · subst hj
    simpa using (h.written j).write ht
  · simpa [hj] using h.written j

theorem Inv.purge (h : Inv cd s) (i : Ident) :
    Inv cd { s with store := Function.update s.store i none } := by
  refine ⟨fun j => ?_, h.cache, h.calls⟩
  by_cases hj : j = i
  · subst hj
    simpa using (h.written j).purge
  · simpa [hj] using h.written j

/-! ## 4. The reads of a call -/

/-- The metadata keys come first: while one of them is to be read, so are the history keys. -/
theorem CallInv.first_mem {call : Call} (h : CallInv cd log call) {r : InstanceRef}
    (hr : r ∈ call.refs) (hm : (r, .metadata) ∈ call.todo) : (r, .history 0) ∈ call.todo := by
  obtain ⟨p, hp⟩ := h.order
  have hfirst : (r, Slot.history 0) ∈ call.refs.map (·, Slot.history 0) := List.mem_map_of_mem hr
  rcases List.append_eq_append_iff.mp hp with ⟨a, -, ha⟩ | ⟨a, -, ha⟩
  · rw [ha]
    exact List.mem_append_right _ hfirst
  · -- a metadata key is none of the history keys
    have hm' := ha ▸ List.mem_append_right a hm
    obtain ⟨r', -, he⟩ := List.mem_map.mp hm'
    exact absurd (Prod.mk.inj he).2 (by decide)

theorem CallInv.readChunk {store : Ident → Option Inst} (hw : ∀ i, Written cd (log i) (store i))
    {call : Call} (h : CallInv cd log call) (hne : call.todo ≠ [])
    (hstill : ∀ r, (r, .history 0) ∈ call.chunk → (r, .metadata) ∉ call.chunk →
      Still (store (call.ident r)) (call.snap r)) : CallInv cd log (call.readChunk store) := by
  have hsplit : ∀ k, k ∈ call.todo ↔ k ∈ call.chunk ∨ k ∈ call.todo.drop bulkGetChunk := by
    intro k
    rw [← List.mem_append, Call.chunk, List.take_append_drop]
  have hsnap : ∀ r, (call.readChunk store).snap r =
      if (r, .metadata) ∈ call.chunk then store (call.ident r) else call.snap r := fun _ => rfl
  have hrec : ∀ r, (call.readChunk store).record r = if (r, .metadata) ∈ call.chunk then
      (store (call.ident r)).bind (·.value .metadata) else call.record r := fun _ => rfl
  have hfst : ∀ r, (call.readChunk store).first r = if (r, .history 0) ∈ call.chunk then
      (store (call.ident r)).bind (·.value (.history 0)) else call.first r := fun _ => rfl
  refine ⟨h.names, (List.drop_suffix _ _).trans h.order, fun r x hx => ?_, fun r hr hm => ?_,
    fun r hr hm x hx hlen => ?_, fun r => ?_⟩
  · rw [hsnap] at hx
    split at hx
    · exact (hw _).current x hx
    · exact h.snapped r x hx
  · rw [hrec, hsnap]
    by_cases hc : (r, .metadata) ∈ call.chunk
    · rw [if_pos hc, if_pos hc]
      cases store (call.ident r) <;> rfl
    · rw [if_neg hc, if_neg hc]
      exact h.record r hr fun ht => ((hsplit _).mp ht).elim hc hm
  · rw [hfst]
    rw [hsnap] at hx
    by_cases hf : (r, .history 0) ∈ call.chunk
    · rw [if_pos hf]
      by_cases hc : (r, .metadata) ∈ call.chunk
      · rw [if_pos hc] at hx
        rw [hx]
        exact (List.head?_eq_getElem? ..).symm
      · -- the record was read earlier: the instance has not moved on since
        rw [if_neg hc] at hx
        have hs := hstill r hf hc
        rw [hx] at hs
        rw [(hw _).getElem?_eq (h.snapped r x hx) hs (List.length_pos_iff.mpr hlen)]
        exact (List.head?_eq_getElem? ..).symm
    · have hf' : (r, .history 0) ∉ call.todo := fun ht => ((hsplit _).mp ht).elim hf hm
      have hc : (r, .metadata) ∉ call.chunk := fun hc =>
        hf' (h.first_mem hr ((hsplit _).mpr (.inl hc)))
      rw [if_neg hc] at hx
      rw [if_neg hf]
      exact h.first r hr hf' x hx hlen
  · have hl := h.loading r
    show LoadInv cd (call.readChunk store) r (call.work r)
    cases hwork : call.work r with
    | waiting => trivial
    | done => trivial
    | loading n todo got =>
        rw [hwork] at hl
        exact absurd hl.2.1 hne

/-! ## 5. The work on a reference -/

theorem CallInv.setWork {call : Call} (h : CallInv cd log call) {r : InstanceRef} {w : Work}
    (hw : LoadInv cd call r w) : CallInv cd log (call.setWork r w) where
  names := h.names
  order := h.order
  snapped := h.snapped
  record := h.record
  first := h.first
  loading r' := by
    show LoadInv cd call r' (Function.update call.work r w r')
    by_cases he : r' = r
    · subst he
      simpa using hw
    · simpa [he] using h.loading r'

/-- A record with a usable length was read in a state with a history of that length. -/
theorem CallInv.exists_snap (hw : ∀ i, ∀ x ∈ log i, ∀ n, historyLength cd (some x.record) = some n →
      n = x.history.length) {call : Call} (h : CallInv cd log call) {r : InstanceRef}
    (hr : r ∈ call.refs) (ht : call.todo = []) {n : Nat}
    (hn : historyLength cd (call.record r) = some n) :
    ∃ x, call.snap r = some x ∧ x ∈ log (call.ident r) ∧ call.record r = some x.record ∧
      n = x.history.length ∧ x.history ≠ [] ∧ call.first r = x.history.head? := by
  have hrec := h.record r hr (ht ▸ List.not_mem_nil)
  cases hs : call.snap r with
  | none =>
      rw [hrec, hs] at hn
      cases hn
  | some x =>
      have hx := h.snapped r x hs
      rw [hrec, hs] at hn
      have hlen := hw _ x hx n hn
      have hne : x.history ≠ [] := by
        have hpos := (historyLength_bounds hn).1
        exact List.length_pos_iff.mp (hlen ▸ hpos)
      exact ⟨x, rfl, hx, by rw [hrec, hs]; rfl, hlen, hne,
        h.first r hr (ht ▸ List.not_mem_nil) x hs hne⟩

theorem loadInv_load {call : Call} {r : InstanceRef} (hr : r ∈ call.refs) (ht : call.todo = []) :
    LoadInv cd call r (.load cd (call.record r)) := by
  unfold Work.load
  cases hn : historyLength cd (call.record r) with
  | none => trivial
  | some n =>
      refine ⟨hr, ht, hn, fun i hi hm => absurd ?_ hm⟩
      exact List.mem_append_left _ (List.mem_map_of_mem (List.mem_range.mpr hi))

theorem LoadInv.readChunk {store : Ident → Option Inst}
    (hw : ∀ i, Written cd (log i) (store i)) {call : Call} (hc : CallInv cd log call)
    {r : InstanceRef} {n : Nat} {todo : List Slot} {got : Slot → Option Bytes}
    (h : LoadInv cd call r (.loading n todo got))
    (hs : Still (store (call.ident r)) (call.snap r)) :
    LoadInv cd call r (.loading n (todo.drop bulkGetChunk) fun sl =>
      if sl ∈ todo.take bulkGetChunk then (store (call.ident r)).bind (·.value sl) else got sl) := by
  obtain ⟨hr, ht, hn, hgot⟩ := h
  refine ⟨hr, ht, hn, fun i hi hm x hx => ?_⟩
  obtain ⟨y, hy, hlog, -, hlen, -⟩ :=
    hc.exists_snap (fun i => (hw i).counts) hr ht hn
  obtain rfl : y = x := Option.some.inj (hy.symm.trans hx)
  by_cases hin : Slot.history i ∈ todo.take bulkGetChunk
  · exact (if_pos hin).trans ((hw _).getElem?_eq hlog (hx ▸ hs) (by omega))
  · refine (if_neg hin).trans (hgot i hi (fun hmem => ?_) y hx)
    rw [← List.take_append_drop bulkGetChunk todo, List.mem_append] at hmem
    exact hmem.elim hin hm

/-- **What a call stores** is the summary of the state in which it read the record. -/
theorem entry_of_loading (hcs : CarriesCustomStatus cd)
    (hcounts : ∀ i, ∀ x ∈ log i, ∀ n, historyLength cd (some x.record) = some n →
      n = x.history.length) {call : Call} (hc : CallInv cd log call) {r : InstanceRef} {n : Nat}
    {got : Slot → Option Bytes} (h : LoadInv cd call r (.loading n [] got)) :
    Entry cd log (r.cacheKey call.ns) ⟨call.ns, r.appID, (call.record r).getD [],
      (call.first r).getD [], loadedSummary cd call.ns r n got⟩ := by
  obtain ⟨hr, ht, hn, hgot⟩ := h
  obtain ⟨x, hx, hlog, hrec, hlen, hne, hfirst⟩ := hc.exists_snap hcounts hr ht hn
  have hle := (historyLength_bounds hn).2
  rw [hrec] at hn
  obtain ⟨b, bs, hb⟩ := List.exists_cons_of_ne_nil hne
  refine ⟨call.ident r, x, n, hc.names.1, hc.names.2 r hr, rfl, hlog, by simp [hrec], hn,
    by simp [hfirst, hb], ?_⟩
  subst hlen
  exact loadedSummary_eq hcs hle fun i hi => hgot i hi List.not_mem_nil x hx

/-! ## 6. Steps and runs -/

/-- **Every step that does not read across a change keeps the invariant.** -/
theorem step_inv (hcs : CarriesCustomStatus cd) {s' : State} {a : Act} (h : Inv cd s)
    (hu : Undisturbed s a) (hstep : Step cd s a s') : Inv cd s' := by
  cases hstep with
  | write ht => exact h.write ht
  | purge i => exact h.purge i
  | start c ns refs => exact h.setCall (.fresh hu.1 hu.2)
  | readMetas hne => exact h.setCall ((h.calls _).readChunk h.written hne hu)
  | take hw hget => exact h.setCall ((h.calls _).setWork trivial)
  | miss hw hget => exact h.setCall ((h.calls _).setWork (loadInv_load hw.mem hw.read))
  | @readHistory c r n todo got hwork hne =>
      have hl := (h.calls c).loading r
      rw [hwork] at hl
      exact h.setCall ((h.calls c).setWork (hl.readChunk h.written (h.calls c) hu))
  | @put c r n got hwork =>
      have hl := (h.calls c).loading r
      rw [hwork] at hl
      have hset := h.setCall (c := c) ((h.calls c).setWork (r := r) (w := .done) trivial)
      refine ⟨hset.written, fun k e he => ?_, hset.calls⟩
      rcases SummaryCache.mem_put he with ⟨rfl, rfl⟩ | he
      · exact entry_of_loading hcs (fun i => (h.written i).counts) (h.calls c) hl
      · exact h.cache k e he
  | prune ns appID keep =>
      exact ⟨h.written, fun k e he => h.cache k e (SummaryCache.mem_prune he), h.calls⟩

/-- A summary taken from the cache is that of the state in which the record was read: the entry
    was stored for a state of the same instance with the same record and the same first entry,
    and these determine the history. -/
theorem take_eq (h : Inv cd s) {c : Nat} {r : InstanceRef} {sum : ExecutionSummary}
    (hw : Waiting (s.calls c) r)
    (hget : s.cache.get (r.cacheKey (s.calls c).ns) ((s.calls c).record r) ((s.calls c).first r) =
      some sum) :
    ∃ x, (s.calls c).snap r = some x ∧ sum = historySummary cd r x.history := by
  obtain ⟨e, hmem, hrec, hfirst, rfl⟩ := SummaryCache.mem_of_get hget
  obtain ⟨i, y, n, hns, happ, hk, hy, herec, hn, hefirst, hsum⟩ := h.cache _ e hmem
  have hc := h.calls c
  obtain ⟨x, hx, hlog, hxrec, hlen, hne, hxfirst⟩ := hc.exists_snap
    (fun i => (h.written i).counts) hw.mem hw.read (n := n) (by rw [hrec, herec]; exact hn)
  -- one key, one instance
  obtain rfl : i = (s.calls c).ident r := by
    obtain ⟨ns, app, id⟩ := i
    obtain rfl : (s.calls c).ns = ns := cacheKey_inj_ns hc.names.1 hns hk
    obtain ⟨rfl, rfl⟩ := cacheKey_inj (hc.names.2 r hw.mem) happ hk
    rfl
  have hhead : x.history.head? = some e.first := by
    obtain ⟨b, bs, hb⟩ := List.exists_cons_of_ne_nil hne
    rw [hxfirst, hb] at hfirst
    rw [hb, ← hfirst]
    rfl
  have heq : x.version.items = y.version.items :=
    (h.written _).versions.items_eq (List.mem_map_of_mem hlog) (List.mem_map_of_mem hy) hhead
      hefirst (hlen.symm.trans ((h.written _).counts y hy n hn))
  refine ⟨x, hx, ?_⟩
  rw [hsum, show x.history = y.history from heq]
  rfl

end Invariant

/-- **The cache is coherent in every run that does not read across a change**: a summary taken
    from it is the one `DecodeExecution` gives for the history the store held when the metadata
    record was read. -/
theorem take_coherent {cd : Codec} (hcs : CarriesCustomStatus cd) {max : Nat}
    {l : List (State × Act)} {s : State} (hrun : Trace (Step cd) (.init max) l s)
    (hu : ∀ p ∈ l, Undisturbed p.1 p.2) :
    ∀ p ∈ l, ∀ c r sum, p.2 = .take c r sum →
      ∃ x, (p.1.calls c).snap r = some x ∧ sum = historySummary cd r x.history := by
  refine Trace.steps_of (I := Inv cd) (Q := fun s a => ∀ c r sum, a = .take c r sum →
    ∃ x, (s.calls c).snap r = some x ∧ sum = historySummary cd r x.history)
    (inv_init max) (fun s a s' h hU hstep => step_inv hcs h hU hstep)
    (fun s a s' h _ hstep c r sum ha => ?_) hrun hu
  subst ha
  cases hstep with
  | take hw hget => exact take_eq h hw hget

/-! ## 7. Two runs -/

/-- An encoded `ExecutionStarted` event of a child of the workflow `p`. -/
def childStartedBytes : Bytes := [0x1a, 0x07, 0x2a, 0x05, 0x22, 0x03, 0x0a, 0x01, 0x70]

/-- Readers that know two events and one metadata record. -/
def childCodec : Codec where
  event b :=
    if b = orchestratorStartedBytes then some ⟨0, none, .orchestratorStarted⟩
    else if b = childStartedBytes then some ⟨0, none, .executionStarted [] none (some (some "p".toList))⟩
    else none
  metadata b := if b = lengthOne then some 1 else none
  legacy _ := none
  text _ := []
  runtimeState _ _ events :=
    if events.all isOrchestratorStarted then { status := .unknown }
    else { status := .running, name := some [], createdTime := some 0, input := some none }

theorem carries_childCodec : CarriesCustomStatus childCodec := fun _ _ _ => rfl

/-- The instance `42` of the app `shop` before and after a purge and a re-creation. -/
def firstLife : Inst := ⟨1, 1, lengthOne, [orchestratorStartedBytes], none⟩
def secondLife : Inst := ⟨2, 1, lengthOne, [childStartedBytes], none⟩

def shop42 : Ident := ⟨"d".toList, ⟨"shop".toList, "42".toList⟩⟩

/-- A call that has read the record and the first entry of the first life. -/
def hasRead : Call := (Call.fresh shop42.ns [shop42.ref]).readChunk
  (Function.update (fun _ => none) shop42 (some firstLife))

theorem record_hasRead : hasRead.record shop42.ref = some lengthOne := by decide
theorem snap_hasRead : hasRead.snap shop42.ref = some firstLife := by decide
theorem waiting_hasRead : Waiting hasRead shop42.ref := ⟨List.mem_singleton_self _, rfl, rfl⟩

theorem load_hasRead : Work.load childCodec (hasRead.record shop42.ref) =
    .loading 1 (declaredSlots 1) fun _ => none := by
  rw [record_hasRead]
  rfl

/-- Calls 0 and 1 have both read. -/
def bothRead (store : Ident → Option Inst) (log : Ident → List Inst) : State where
  store := store
  log := log
  cache := newSummaryCache 1
  calls := Function.update (Function.update (fun _ => Call.fresh [] []) 0 hasRead) 1 hasRead

/-- **From there, call 0 loads whatever the store holds by then and call 1 is served its
    summary.** -/
theorem exists_take {store : Ident → Option Inst} {log : Ident → List Inst} (life : Inst)
    (hlife : store shop42 = some life) (hlen : life.history.length = 1)
    {l : List (State × Act)} (h : Trace (Step childCodec) (.init 1) l (bothRead store log)) :
    ∃ l' s s', Trace (Step childCodec) (.init 1)
        (l ++ l' ++ [(s, .take 1 shop42.ref (historySummary childCodec shop42.ref life.history))]) s' ∧
      (s.calls 1).snap shop42.ref = some firstLife ∧
      (Still (some life) (some firstLife) → ∀ p ∈ l', Undisturbed p.1 p.2) := by
  -- what call 0 reads
  let got : Slot → Option Bytes := fun sl =>
    if sl ∈ (declaredSlots 1).take bulkGetChunk then (store shop42).bind (·.value sl) else none
  have hgot : loadedSummary childCodec shop42.ns shop42.ref 1 got =
      historySummary childCodec shop42.ref life.history := by
    rw [← hlen]
    refine loadedSummary_eq carries_childCodec (by rw [hlen]; decide) fun i hi => ?_
    obtain rfl : i = 0 := by omega
    exact (if_pos (by decide)).trans (by rw [hlife]; rfl)
  have hmiss := h.next (.miss (c := 0) (r := shop42.ref) waiting_hasRead rfl)
  have hread := hmiss.next (@Step.readHistory childCodec _ 0 shop42.ref 1 (declaredSlots 1)
    (fun _ => none) load_hasRead (by decide))
  have hput := hread.next (@Step.put childCodec _ 0 shop42.ref 1 got rfl)
  have htake := hput.next (@Step.take childCodec _ 1 shop42.ref
    (historySummary childCodec shop42.ref life.history) waiting_hasRead
    (hgot ▸ @SummaryCache.get_put_self (newSummaryCache 1) (shop42.ref.cacheKey shop42.ns)
      ⟨shop42.ns, shop42.ref.appID, lengthOne, orchestratorStartedBytes,
        loadedSummary childCodec shop42.ns shop42.ref 1 got⟩
      (some orchestratorStartedBytes) rfl))
  refine ⟨[_, _, _], _, _, by simpa using htake, snap_hasRead, fun hs p hp => ?_⟩
  rcases hp with _ | ⟨_, _ | ⟨_, _ | ⟨_, hp⟩⟩⟩
  · trivial
  · show Still (store shop42) (some firstLife)
    rw [hlife]
    exact hs
  · trivial
  · cases hp

theorem transaction_firstLife : Transaction childCodec [] none firstLife :=
  ⟨.create rfl (by simp), fun n hn => by
    obtain rfl : 1 = n := Option.some.inj hn
    rfl, by simp⟩

/-- The record and the first entry of one instance are read together. -/
theorem record_in_chunk {r : InstanceRef}
    (h : (r, .history 0) ∈ (Call.fresh shop42.ns [shop42.ref]).chunk) :
    (r, .metadata) ∈ (Call.fresh shop42.ns [shop42.ref]).chunk := by
  have hc : (Call.fresh shop42.ns [shop42.ref]).chunk =
    [(shop42.ref, .metadata), (shop42.ref, .history 0)] := rfl
  rw [hc] at h ⊢
  simpa using h

/-- The start of both runs: the instance is created, and two calls read its record and its first
    entry. -/
theorem exists_bothRead : ∃ l, Trace (Step childCodec) (.init 1) l
      (bothRead (Function.update (fun _ => none) shop42 (some firstLife))
        (Function.update (fun _ => []) shop42 [firstLife])) ∧
    ∀ p ∈ l, Undisturbed p.1 p.2 := by
  have h₁ := (Trace.start : Trace (Step childCodec) (.init 1) [] (.init 1)).next
    (.write (i := shop42) transaction_firstLife)
  have h₂ := h₁.next (.start 0 shop42.ns [shop42.ref])
  have h₃ := h₂.next (.readMetas (c := 0) (by decide))
  have h₄ := h₃.next (.start 1 shop42.ns [shop42.ref])
  have h₅ := h₄.next (.readMetas (c := 1) (by decide))
  have hend : ∀ s, s = bothRead (Function.update (fun _ => none) shop42 (some firstLife))
      (Function.update (fun _ => []) shop42 [firstLife]) → ∀ l, Trace (Step childCodec) (.init 1) l s →
      Trace (Step childCodec) (.init 1) l
        (bothRead (Function.update (fun _ => none) shop42 (some firstLife))
          (Function.update (fun _ => []) shop42 [firstLife])) := fun s hs l h => hs ▸ h
  refine ⟨_, hend _ ?_ _ h₅, fun p hp => ?_⟩
  · refine congrArg (State.mk _ _ _) (funext fun c => ?_)
    rcases c with _ | _ | c
    · rfl
    · rfl
    · rfl
  · simp only [List.nil_append, List.cons_append, List.mem_cons, List.not_mem_nil, or_false] at hp
    rcases hp with rfl | rfl | rfl | rfl | rfl
    · trivial
    · exact ⟨by decide, by decide⟩
    · exact fun r hf hm => absurd (record_in_chunk hf) hm
    · exact ⟨by decide, by decide⟩
    · exact fun r hf hm => absurd (record_in_chunk hf) hm

/-- One run as it should be: call 1 is served the summary that call 0 stored. -/
theorem take_coherent_shop :
    ∃ (l : List (State × Act)) (s s' : State) (sum : ExecutionSummary),
      Trace (Step childCodec) (.init 1) l s' ∧ (∀ p ∈ l, Undisturbed p.1 p.2) ∧
      (s, .take 1 shop42.ref sum) ∈ l ∧ ∃ x, (s.calls 1).snap shop42.ref = some x ∧
        sum = historySummary childCodec shop42.ref x.history := by
  obtain ⟨l, h, hu⟩ := exists_bothRead
  obtain ⟨l', s, s', htake, -, hu'⟩ := exists_take firstLife (by simp) rfl h
  have hstill : Still (some firstLife) (some firstLife) := by
    intro x hx
    obtain rfl := Option.some.inj hx
    exact ⟨firstLife, rfl, rfl, rfl⟩
  have hall : ∀ p ∈ l ++ l' ++ [(s, .take 1 shop42.ref
      (historySummary childCodec shop42.ref firstLife.history))], Undisturbed p.1 p.2 := by
    intro p hp
    rcases List.mem_append.mp hp with hp | hp
    · exact (List.mem_append.mp hp).elim (hu p) (hu' hstill p)
    · rw [List.mem_singleton.mp hp]
      trivial
  have hmem := List.mem_append_right (l ++ l') (List.mem_singleton_self (s, Act.take 1 shop42.ref
    (historySummary childCodec shop42.ref firstLife.history)))
  exact ⟨_, s, s', _, htake, hall, hmem,
    take_coherent carries_childCodec htake hall _ hmem 1 shop42.ref _ rfl⟩

theorem transaction_secondLife : Transaction childCodec [firstLife] none secondLife :=
  ⟨.create rfl (by decide), fun n hn => by
    obtain rfl : 1 = n := Option.some.inj hn
    rfl, fun x hx b hb hnew => by
    rw [List.mem_singleton.mp hx] at hb
    exact absurd ((Option.some.inj hb).trans (Option.some.inj hnew).symm) (by decide)⟩

/-- The two lives have different summaries: the second one is a child. -/
theorem summary_lives_ne : historySummary childCodec shop42.ref secondLife.history ≠
    historySummary childCodec shop42.ref firstLife.history := by
  decide

/-- **A purge and a re-creation between two reads**: call 0 stores the summary of the second life
    under the record and the first entry of the first, and call 1, which read these when the
    store held the first life, takes it. -/
theorem take_incoherent :
    ∃ (l : List (State × Act)) (s s' : State) (sum : ExecutionSummary),
      Trace (Step childCodec) (.init 1) l s' ∧ (s, .take 1 shop42.ref sum) ∈ l ∧
      (s.calls 1).snap shop42.ref = some firstLife ∧
      sum ≠ historySummary childCodec shop42.ref firstLife.history := by
  obtain ⟨l, h, -⟩ := exists_bothRead
  have hpurge := h.next (.purge shop42)
  have hwrite := hpurge.next (.write (i := shop42) transaction_secondLife)
  obtain ⟨l', s, s', htake, hsnap, -⟩ := exists_take secondLife (by simp) rfl hwrite
  exact ⟨_, s, s', _, htake, List.mem_append_right _ (List.mem_singleton_self _), hsnap,
    summary_lives_ne⟩

end DevDashboard.Workflow.CacheRun
