/-
  File:      DevDashboard/Web/Pairing.lean
  Subject:   WHICH EVENT OF A HISTORY COMPLETES WHICH (`lib/pairing.ts`).

  `buildPairIndex` goes through the events once, with a stack of open starts for each id, and then
  through what is left on the stacks. The map it returns has an entry for each event that starts
  or ends something. `Date.parse` is a parameter, and so is the type of the ids.

  * `Inv` -- what the map and the stacks are like in the middle of the list;
  * `inv_step` -- one event keeps that, whatever it is;
  * `buildPairIndex_wellMatched` -- **the map is a well-formed matching** (`WellMatched`).
-/
import DevDashboard.Lib.Dict
import DevDashboard.Lib.Nesting
import DevDashboard.Web.EventOrder

namespace DevDashboard.Web

open Lib

/-! ## 1. The source -/

/-- `START_TYPES`. -/
def startTypes : List Str :=
  ["TaskScheduled".toList, "TimerCreated".toList, "SubOrchestrationCreated".toList]

/-- `END_TYPES`. -/
def endTypes : List Str :=
  ["TaskCompleted".toList, "TaskFailed".toList, "TimerFired".toList,
    "SubOrchestrationCompleted".toList, "SubOrchestrationFailed".toList]

/-- `'start' | 'end'`. -/
inductive PairRole where
  | start
  | end'
  deriving DecidableEq

structure PairInfo (ι : Type) where
  /-- the `sequenceId` of the start event -/
  pairId : ι
  role : PairRole
  /-- the place of the counterpart, if there is one -/
  partnerIndex : Option Nat
  durationMs : Option Int
  deriving DecidableEq

variable {ι : Type} [LinearOrder ι] [Zero ι]

/-- `result` and `open`. A stack has its top first. -/
structure PairScan (ι : Type) [LinearOrder ι] where
  result : Dict Nat (PairInfo ι) := Dict.empty
  open' : Dict ι (List Nat) := Dict.empty

/-- The stack of an id; none is an empty one. -/
def PairScan.stack (s : PairScan ι) (id : ι) : List Nat := (s.open'.get id).getD []

section Source

variable (parse : Str → Option Int)

/-- Elapsed milliseconds; none for a time that cannot be read, or an end before its start. -/
def elapsed (startEvent endEvent : WorkflowHistoryEvent ι) : Option Int :=
  match parse startEvent.timestamp, parse endEvent.timestamp with
  | some start, some end' => if end' < start then none else some (end' - start)
  | _, _ => none

/-- One event, at place `index`. -/
def PairScan.step (ascending : List (WorkflowHistoryEvent ι)) (s : PairScan ι) (index : Nat)
    (event : WorkflowHistoryEvent ι) : PairScan ι :=
  if event.type ∈ startTypes ∧ 0 ≤ event.sequenceId then
    { s with open' := s.open'.put event.sequenceId (index :: s.stack event.sequenceId) }
  else if event.type ∈ endTypes then
    match event.scheduledId with
    | none => s
    | some pairId =>
        match s.stack pairId with
        | [] => { s with result := s.result.put index ⟨pairId, .end', none, none⟩ }
        | startIndex :: stack =>
            let durationMs := ascending[startIndex]?.bind fun start => elapsed parse start event
            { result := (s.result.put startIndex ⟨pairId, .start, some index, none⟩).put index
                ⟨pairId, .end', some startIndex, durationMs⟩
              open' := s.open'.put pairId stack }
  else s

def PairScan.run (ascending : List (WorkflowHistoryEvent ι)) (s : PairScan ι) (index : Nat) :
    List (WorkflowHistoryEvent ι) → PairScan ι
  | [] => s
  | event :: rest => (s.step parse ascending index event).run ascending (index + 1) rest

/-- The starts still on a stack, each with its id. -/
def PairScan.running (s : PairScan ι) : List (ι × Nat) :=
  s.open'.entries.flatMap fun e => e.2.map fun startIndex => (e.1, startIndex)

/-- The loop over them. -/
def markRunning (result : Dict Nat (PairInfo ι)) (running : List (ι × Nat)) :
    Dict Nat (PairInfo ι) :=
  running.foldl (fun result e => result.put e.2 ⟨e.1, .start, none, none⟩) result

def buildPairIndex (ascending : List (WorkflowHistoryEvent ι)) : Dict Nat (PairInfo ι) :=
  let s := PairScan.run parse ascending {} 0 ascending
  markRunning s.result s.running

end Source

/-! ## 2. What a matching is -/

section Spec

/-- The event at place `i` starts something, and `id` is its id. -/
def IsStart (events : List (WorkflowHistoryEvent ι)) (i : Nat) (id : ι) : Prop :=
  ∃ e, events[i]? = some e ∧ e.type ∈ startTypes ∧ 0 ≤ e.sequenceId ∧ e.sequenceId = id

/-- The event at place `i` ends something, and `id` is the id of what it ends. -/
def IsEnd (events : List (WorkflowHistoryEvent ι)) (i : Nat) (id : ι) : Prop :=
  ∃ e, events[i]? = some e ∧ e.type ∈ endTypes ∧ e.scheduledId = some id

variable (events : List (WorkflowHistoryEvent ι)) (index : Nat → Option (PairInfo ι))

/-- The start at `i` and the end at `j` are partners, both of one id. -/
def Paired (id : ι) (i j : Nat) : Prop :=
  index i = some ⟨id, .start, some j, none⟩ ∧ ∃ d, index j = some ⟨id, .end', some i, d⟩

/-- A well-formed matching of the starts and the ends of a history. -/
structure WellMatched : Prop where
  /-- the entries are those of the starts and the ends, and have their ids -/
  isSome_iff : ∀ i, (index i).isSome = true ↔ (∃ id, IsStart events i id) ∨ ∃ id, IsEnd events i id
  role : ∀ i info, index i = some info →
    info.role = .start ∧ IsStart events i info.pairId ∨ info.role = .end' ∧ IsEnd events i info.pairId
  /-- a partner has this one as its partner, and the two are a start and a later end of one id -/
  partner : ∀ i j info, index i = some info → info.partnerIndex = some j →
    info.role = .start ∧ i < j ∧ Paired index info.pairId i j ∨
      info.role = .end' ∧ j < i ∧ Paired index info.pairId j i
  uncrossed : ∀ id i j k l, Paired index id i j → Paired index id k l → i < k → k < j → l < j
  /-- an end is unmatched exactly when all earlier starts of its id have earlier partners -/
  unmatched_iff : ∀ j info, index j = some info → info.role = .end' →
    (info.partnerIndex = none ↔
      ∀ i < j, IsStart events i info.pairId → ∃ k < j, Paired index info.pairId i k)
  duration : ∀ i info d, index i = some info → info.durationMs = some d →
    info.role = .end' ∧ info.partnerIndex.isSome = true ∧ 0 ≤ d

end Spec

/-! ## 3. In the middle of the list -/

section Step

variable {parse : Str → Option Int} {events : List (WorkflowHistoryEvent ι)} {s : PairScan ι}
  {n i j : Nat} {id id' : ι}

theorem isStart_unique (h : IsStart events i id) (h' : IsStart events i id') : id = id' := by
  obtain ⟨e, he, -, -, rfl⟩ := h
  obtain ⟨e', he', -, -, rfl⟩ := h'
  rw [Option.some.inj (he.symm.trans he')]

theorem not_isEnd_of_isStart (h : IsStart events i id) : ¬ IsEnd events i id' := by
  rintro ⟨e', he', hend, -⟩
  obtain ⟨e, he, hstart, -⟩ := h
  obtain rfl := Option.some.inj (he.symm.trans he')
  have hall : (startTypes.all fun t => decide (t ∉ endTypes)) = true := by decide
  exact of_decide_eq_true (List.all_eq_true.mp hall _ hstart) hend

omit [LinearOrder ι] [Zero ι] in
theorem elapsed_nonneg {a b : WorkflowHistoryEvent ι} {d : Int} (h : elapsed parse a b = some d) :
    0 ≤ d := by
  unfold elapsed at h
  split at h
  · split at h
    · cases h
    · have := Option.some.inj h
      omega
  · cases h

/-- What an entry of the map says. -/
inductive Sound (events : List (WorkflowHistoryEvent ι)) (index : Nat → Option (PairInfo ι)) :
    Nat → PairInfo ι → Prop
  | start {id : ι} {i j : Nat} (h : IsStart events i id) (hp : Paired index id i j) :
      Sound events index i ⟨id, .start, some j, none⟩
  | matched {id : ι} {i j : Nat} {d : Option Int} (h : IsEnd events j id)
      (hp : Paired index id i j) (hd : ∀ ms, d = some ms → 0 ≤ ms) :
      Sound events index j ⟨id, .end', some i, d⟩
  | orphan {id : ι} {j : Nat} (h : IsEnd events j id)
      (hall : ∀ i < j, IsStart events i id → ∃ k < j, Paired index id i k) :
      Sound events index j ⟨id, .end', none, none⟩

/-- The first `n` events have been read. -/
structure Inv (events : List (WorkflowHistoryEvent ι)) (n : Nat) (s : PairScan ι) : Prop where
  nested : ∀ id, Nested n (Paired s.result.get id) (s.stack id)
  opened : ∀ id, ∀ i ∈ s.stack id, IsStart events i id
  starts : ∀ i id, i < n → IsStart events i id →
    i ∈ s.stack id ∨ ∃ j, Paired s.result.get id i j
  ends : ∀ i id, i < n → IsEnd events i id → (s.result.get i).isSome = true
  read : ∀ i info, s.result.get i = some info → i < n
  sound : ∀ i info, s.result.get i = some info → Sound events s.result.get i info

/-- An open start has no entry. -/
theorem Inv.get_of_opened (h : Inv events n s) (hi : i ∈ s.stack id) : s.result.get i = none := by
  cases hget : s.result.get i with
  | none => rfl
  | some info =>
      have hstart := h.opened id i hi
      exfalso
      cases h.sound i info hget with
      | start hs hp =>
          obtain rfl := isStart_unique hs hstart
          exact (h.nested _).free i hi _ hp
      | matched he => exact not_isEnd_of_isStart hstart he
      | orphan he => exact not_isEnd_of_isStart hstart he

theorem Inv.get_at (h : Inv events n s) : s.result.get n = none := by
  cases hget : s.result.get n with
  | none => rfl
  | some info => exact absurd (h.read n info hget) (lt_irrefl n)

/-- All that the one map says, the other says too. -/
def Extends (f g : Nat → Option (PairInfo ι)) : Prop := ∀ k info, f k = some info → g k = some info

omit [LinearOrder ι] [Zero ι] in
/-- A pair made is never undone. -/
theorem Paired.mono {f g : Nat → Option (PairInfo ι)} (hfg : Extends f g)
    (h : Paired f id i j) : Paired g id i j := by
  obtain ⟨hi, d, hj⟩ := h
  exact ⟨hfg i _ hi, d, hfg j _ hj⟩

theorem Sound.mono {f g : Nat → Option (PairInfo ι)} {info : PairInfo ι} (hfg : Extends f g)
    (h : Sound events f i info) :
    Sound events g i info := by
  cases h with
  | start hs hp => exact .start hs (hp.mono hfg)
  | matched he hp hd => exact .matched he (hp.mono hfg) hd
  | orphan he hall =>
      refine .orphan he fun k hk hs => ?_
      obtain ⟨m, hm, hp⟩ := hall k hk hs
      exact ⟨m, hm, hp.mono hfg⟩

omit [Zero ι] in
theorem stack_put (s : PairScan ι) (id id' : ι) (l : List Nat) (r : Dict Nat (PairInfo ι)) :
    PairScan.stack ⟨r, s.open'.put id l⟩ id' = if id' = id then l else s.stack id' := by
  unfold PairScan.stack
  by_cases h : id' = id
  · rw [h, if_pos rfl, Dict.get_put_self]
    rfl
  · rw [if_neg h, Dict.get_put_of_ne _ _ h]

/-! ## 4. One event -/

omit [LinearOrder ι] [Zero ι] in
theorem extends_put {d : Dict Nat (PairInfo ι)} {k : Nat} {info : PairInfo ι}
    (h : d.get k = none) : Extends d.get (d.put k info).get := by
  intro m x hm
  have hne : m ≠ k := by
    rintro rfl
    rw [h] at hm
    cases hm
  rw [Dict.get_put_of_ne _ _ hne]
  exact hm

/-- An event that neither starts nor ends anything. -/
theorem Inv.skip (h : Inv events n s) (hs : ∀ id, ¬ IsStart events n id)
    (he : ∀ id, ¬ IsEnd events n id) : Inv events (n + 1) s := by
  refine ⟨fun id => (h.nested id).skip, h.opened, fun i id hi hstart => ?_, fun i id hi hend => ?_,
    fun i info hget => Nat.lt_succ_of_lt (h.read i info hget), h.sound⟩
  · rcases Nat.lt_succ_iff_lt_or_eq.mp hi with hi | rfl
    · exact h.starts i id hi hstart
    · exact absurd hstart (hs id)
  · rcases Nat.lt_succ_iff_lt_or_eq.mp hi with hi | rfl
    · exact h.ends i id hi hend
    · exact absurd hend (he id)

/-- An event that starts something. -/
theorem Inv.push (h : Inv events n s) (hs : IsStart events n id) :
    Inv events (n + 1) { s with open' := s.open'.put id (n :: s.stack id) } := by
  refine ⟨fun id' => ?_, fun id' i hi => ?_, fun i id' hi hstart => ?_, fun i id' hi hend => ?_,
    fun i info hget => Nat.lt_succ_of_lt (h.read i info hget), h.sound⟩
  · rw [stack_put]
    split
    · rename_i heq
      rw [heq]
      exact (h.nested id).push
    · exact (h.nested id').skip
  · rw [stack_put] at hi
    split at hi
    · rename_i heq
      rw [heq]
      rcases List.mem_cons.mp hi with rfl | hi
      · exact hs
      · exact h.opened id i hi
    · exact h.opened id' i hi
  · rw [stack_put]
    rcases Nat.lt_succ_iff_lt_or_eq.mp hi with hi | rfl
    · rcases h.starts i id' hi hstart with hmem | hpaired
      · left
        split
        · rename_i heq
          exact List.mem_cons_of_mem n (heq ▸ hmem)
        · exact hmem
      · exact .inr hpaired
    · rw [if_pos (isStart_unique hstart hs)]
      exact .inl List.mem_cons_self
  · rcases Nat.lt_succ_iff_lt_or_eq.mp hi with hi | rfl
    · exact h.ends i id' hi hend
    · exact absurd hend (not_isEnd_of_isStart hs)

/-- An end of which no start is open. -/
theorem Inv.orphan (h : Inv events n s) (he : IsEnd events n id) (hempty : s.stack id = []) :
    Inv events (n + 1) { s with result := s.result.put n ⟨id, .end', none, none⟩ } := by
  have hext : Extends s.result.get (s.result.put n ⟨id, .end', none, none⟩).get :=
    extends_put h.get_at
  have hpaired : ∀ id' a b, Paired (s.result.put n ⟨id, .end', none, none⟩).get id' a b ↔
      Paired s.result.get id' a b := by
    refine fun id' a b => ⟨fun ⟨ha, d, hb⟩ => ?_, fun hp => hp.mono hext⟩
    have hane : a ≠ n := by
      rintro rfl
      rw [Dict.get_put_self] at ha
      cases ha
    have hbne : b ≠ n := by
      rintro rfl
      rw [Dict.get_put_self] at hb
      cases hb
    rw [Dict.get_put_of_ne _ _ hane] at ha
    rw [Dict.get_put_of_ne _ _ hbne] at hb
    exact ⟨ha, d, hb⟩
  refine ⟨fun id' => (h.nested id').skip.congr (hpaired id'), h.opened, fun i id' hi hstart => ?_,
    fun i id' hi hend => ?_, fun i info hget => ?_, fun i info hget => ?_⟩
  · rcases Nat.lt_succ_iff_lt_or_eq.mp hi with hi | rfl
    · exact (h.starts i id' hi hstart).imp_right fun ⟨j, hp⟩ => ⟨j, hp.mono hext⟩
    · exact absurd he (not_isEnd_of_isStart hstart)
  · rcases Nat.lt_succ_iff_lt_or_eq.mp hi with hi | rfl
    · obtain ⟨info, hinfo⟩ := Option.isSome_iff_exists.mp (h.ends i id' hi hend)
      rw [hext i info hinfo]
      rfl
    · rw [Dict.get_put_self]
      rfl
  · by_cases hin : i = n
    · omega
    · rw [Dict.get_put_of_ne _ _ hin] at hget
      exact Nat.lt_succ_of_lt (h.read i info hget)
  · by_cases hin : i = n
    · subst hin
      rw [Dict.get_put_self] at hget
      obtain rfl := Option.some.inj hget
      refine .orphan he fun k hk hs => ?_
      rcases h.starts k id hk hs with hmem | ⟨j, hp⟩
      · rw [hempty] at hmem
        cases hmem
      · exact ⟨j, ((h.nested id).lt k j hp).2, hp.mono hext⟩
    · rw [Dict.get_put_of_ne _ _ hin] at hget
      exact (h.sound i info hget).mono hext

/-- **An end of which a start is open** is matched with the last one. -/
theorem Inv.pop (h : Inv events n s) (he : IsEnd events n id) {rest : List Nat}
    (hstack : s.stack id = i :: rest) {d : Option Int} (hd : ∀ ms, d = some ms → 0 ≤ ms) :
    Inv events (n + 1)
      { result := (s.result.put i ⟨id, .start, some n, none⟩).put n ⟨id, .end', some i, d⟩
        open' := s.open'.put id rest } := by
  have hmem : i ∈ s.stack id := hstack ▸ List.mem_cons_self
  have hin : i < n := (h.nested id).opened_lt i hmem
  have hfirst : (s.result.put i ⟨id, .start, some n, none⟩).get n = none := by
    rw [Dict.get_put_of_ne _ _ (by omega)]
    exact h.get_at
  have hext : Extends s.result.get
      ((s.result.put i ⟨id, .start, some n, none⟩).put n ⟨id, .end', some i, d⟩).get :=
    fun k info hk => extends_put hfirst k info (extends_put (h.get_of_opened hmem) k info hk)
  have hget : ∀ k, ((s.result.put i ⟨id, .start, some n, none⟩).put n
      ⟨id, .end', some i, d⟩).get k =
        if k = n then some ⟨id, .end', some i, d⟩
        else if k = i then some ⟨id, .start, some n, none⟩ else s.result.get k := by
    intro k
    by_cases hk : k = n
    · rw [hk, if_pos rfl, Dict.get_put_self]
    · rw [if_neg hk, Dict.get_put_of_ne _ _ hk]
      by_cases hki : k = i
      · rw [hki, if_pos rfl, Dict.get_put_self]
      · rw [if_neg hki, Dict.get_put_of_ne _ _ hki]
  generalize (s.result.put i ⟨id, .start, some n, none⟩).put n ⟨id, .end', some i, d⟩ = r
    at hext hget
  have hnew : Paired r.get id i n :=
    ⟨by rw [hget, if_neg (by omega), if_pos rfl], d, by rw [hget, if_pos rfl]⟩
  have hpaired : ∀ id' a b, Paired r.get id' a b ↔
      Paired s.result.get id' a b ∨ id' = id ∧ a = i ∧ b = n := by
    refine fun id' a b => ⟨fun ⟨ha, d', hb⟩ => ?_, ?_⟩
    · rw [hget] at ha hb
      by_cases han : a = n
      · rw [if_pos han] at ha
        cases ha
      · rw [if_neg han] at ha
        by_cases hai : a = i
        · rw [if_pos hai] at ha
          obtain ⟨rfl, -, hbn, -⟩ := PairInfo.mk.inj (Option.some.inj ha)
          exact .inr ⟨rfl, hai, (Option.some.inj hbn).symm⟩
        · rw [if_neg hai] at ha
          by_cases hbn : b = n
          · rw [if_pos hbn] at hb
            obtain ⟨-, -, hia, -⟩ := PairInfo.mk.inj (Option.some.inj hb)
            exact absurd (Option.some.inj hia).symm hai
          · rw [if_neg hbn] at hb
            by_cases hbi : b = i
            · rw [if_pos hbi] at hb
              cases hb
            · rw [if_neg hbi] at hb
              exact .inl ⟨ha, d', hb⟩
    · rintro (hp | ⟨rfl, rfl, rfl⟩)
      · exact hp.mono hext
      · exact hnew
  refine ⟨fun id' => ?_, fun id' k hk => ?_, fun k id' hk hstart => ?_, fun k id' hk hend => ?_,
    fun k info hk => ?_, fun k info hk => ?_⟩
  · rw [stack_put]
    split
    · rename_i heq
      subst heq
      have hnested := h.nested id'
      rw [hstack] at hnested
      exact hnested.pop.congr fun a b => by rw [hpaired]; simp
    · rename_i hne
      exact (h.nested id').skip.congr fun a b => by rw [hpaired]; simp [hne]
  · rw [stack_put] at hk
    split at hk
    · rename_i heq
      rw [heq]
      exact h.opened id k (hstack ▸ List.mem_cons_of_mem i hk)
    · exact h.opened id' k hk
  · rw [stack_put]
    rcases Nat.lt_succ_iff_lt_or_eq.mp hk with hk | rfl
    · rcases h.starts k id' hk hstart with hm | ⟨j, hp⟩
      · split
        · rename_i heq
          rw [heq, hstack] at hm
          rcases List.mem_cons.mp hm with rfl | hm
          · exact .inr ⟨n, heq ▸ hnew⟩
          · exact .inl hm
        · exact .inl hm
      · exact .inr ⟨j, hp.mono hext⟩
    · exact absurd he (not_isEnd_of_isStart hstart)
  · rcases Nat.lt_succ_iff_lt_or_eq.mp hk with hk | rfl
    · obtain ⟨info, hinfo⟩ := Option.isSome_iff_exists.mp (h.ends k id' hk hend)
      rw [hext k info hinfo]
      rfl
    · rw [hget, if_pos rfl]
      rfl
  · rw [hget] at hk
    split at hk
    · omega
    · split at hk
      · omega
      · exact Nat.lt_succ_of_lt (h.read k info hk)
  · rw [hget] at hk
    split at hk
    · rename_i hkn
      obtain rfl := Option.some.inj hk
      rw [hkn]
      exact .matched he hnew hd
    · split at hk
      · rename_i hki
        obtain rfl := Option.some.inj hk
        rw [hki]
        exact .start (h.opened id i hmem) hnew
      · exact (h.sound k info hk).mono hext

variable (parse) in
/-- **One event**, whatever it is. -/
theorem inv_step (h : Inv events n s) {e : WorkflowHistoryEvent ι} (he : events[n]? = some e) :
    Inv events (n + 1) (s.step parse events n e) := by
  have honly : ∀ {e' : WorkflowHistoryEvent ι}, events[n]? = some e' → e' = e := fun he' =>
    Option.some.inj (he'.symm.trans he)
  unfold PairScan.step
  split
  · rename_i hstart
    exact h.push ⟨e, he, hstart.1, hstart.2, rfl⟩
  · rename_i hstart
    have hnostart : ∀ id, ¬ IsStart events n id := by
      rintro id ⟨e', he', htype, hid, -⟩
      obtain rfl := honly he'
      exact hstart ⟨htype, hid⟩
    split
    · rename_i hend
      split
      · rename_i hnone
        refine h.skip hnostart ?_
        rintro id ⟨e', he', -, hid⟩
        obtain rfl := honly he'
        rw [hnone] at hid
        cases hid
      · rename_i pairId hsome
        have hisEnd : IsEnd events n pairId := ⟨e, he, hend, hsome⟩
        split
        · rename_i hempty
          exact h.orphan hisEnd hempty
        · rename_i startIndex stack hstack
          refine h.pop hisEnd hstack fun ms hms => ?_
          obtain ⟨start, -, hms⟩ := Option.bind_eq_some_iff.mp hms
          exact elapsed_nonneg hms
    · rename_i hend
      refine h.skip hnostart ?_
      rintro id ⟨e', he', htype, -⟩
      obtain rfl := honly he'
      exact hend htype

theorem inv_init : Inv events 0 {} := by
  refine ⟨fun id => nested_nil.congr fun a b => ⟨fun h => ?_, fun h => h.elim⟩, fun id i hi => ?_,
    fun i id hi => absurd hi (Nat.not_lt_zero i), fun i id hi => absurd hi (Nat.not_lt_zero i),
    fun i info h => ?_, fun i info h => ?_⟩
  · cases h.1
  · cases hi
  · cases h
  · cases h

variable (parse) in
/-- **The whole list.** -/
theorem inv_run (h : Inv events n s) {rest : List (WorkflowHistoryEvent ι)}
    (hrest : events.drop n = rest) : Inv events (n + rest.length) (s.run parse events n rest) := by
  induction rest generalizing n s with
  | nil => exact h
  | cons e rest ih =>
      have he : events[n]? = some e := by
        rw [← List.head?_drop, hrest]
        rfl
      have htail : events.drop (n + 1) = rest := by
        rw [← List.tail_drop, hrest]
        rfl
      have := ih (inv_step parse h he) htail
      rw [List.length_cons, show n + (rest.length + 1) = n + 1 + rest.length by omega]
      exact this

/-! ## 5. What is left on the stacks -/

omit [Zero ι] in
theorem mem_running : (id, i) ∈ s.running ↔ i ∈ s.stack id := by
  unfold PairScan.running PairScan.stack
  rw [List.mem_flatMap]
  constructor
  · rintro ⟨e, he, hi⟩
    obtain ⟨k, hk, heq⟩ := List.mem_map.mp hi
    obtain ⟨rfl, rfl⟩ := Prod.mk.inj heq
    rw [Dict.mem_entries_iff.mp he]
    exact hk
  · intro hi
    cases hget : s.open'.get id with
    | none =>
        rw [hget] at hi
        cases hi
    | some l =>
        rw [hget] at hi
        exact ⟨(id, l), Dict.mem_entries_iff.mpr hget, List.mem_map.mpr ⟨i, hi, rfl⟩⟩

omit [LinearOrder ι] [Zero ι] in
theorem get_markRunning_of_not_mem {l : List (ι × Nat)} {r : Dict Nat (PairInfo ι)}
    (h : ∀ id, (id, i) ∉ l) : (markRunning r l).get i = r.get i := by
  induction l generalizing r with
  | nil => rfl
  | cons e l ih =>
      have hne : i ≠ e.2 := fun he => h e.1 (by rw [he]; exact List.mem_cons_self)
      have := ih (r := r.put e.2 ⟨e.1, .start, none, none⟩) fun id hm =>
        h id (List.mem_cons_of_mem e hm)
      rw [markRunning, List.foldl_cons, ← markRunning, this, Dict.get_put_of_ne _ _ hne]

omit [Zero ι] in
theorem get_markRunning_of_mem {l : List (ι × Nat)} {r : Dict Nat (PairInfo ι)}
    (h : (id, i) ∈ l) (huniq : ∀ id', (id', i) ∈ l → id' = id) :
    (markRunning r l).get i = some ⟨id, .start, none, none⟩ := by
  induction l generalizing r with
  | nil => cases h
  | cons e l ih =>
      rw [markRunning, List.foldl_cons, ← markRunning]
      by_cases hm : (id, i) ∈ l
      · exact ih hm fun id' hm' => huniq id' (List.mem_cons_of_mem e hm')
      · obtain rfl := (List.mem_cons.mp h).resolve_right hm
        have hnone : ∀ id', (id', i) ∉ l := by
          intro id' hm'
          obtain rfl := huniq id' (List.mem_cons_of_mem _ hm')
          exact hm hm'
        rw [get_markRunning_of_not_mem hnone, Dict.get_put_self]

/-- What the map says after both loops. -/
theorem Inv.get_markRunning (h : Inv events n s) {info : PairInfo ι} :
    (markRunning s.result s.running).get i = some info ↔
      (∃ id, i ∈ s.stack id ∧ info = ⟨id, .start, none, none⟩) ∨ s.result.get i = some info := by
  by_cases hi : ∃ id, i ∈ s.stack id
  · obtain ⟨id, hi⟩ := hi
    have huniq : ∀ id', (id', i) ∈ s.running → id' = id := fun id' hm =>
      isStart_unique (h.opened id' i (mem_running.mp hm)) (h.opened id i hi)
    rw [get_markRunning_of_mem (mem_running.mpr hi) huniq, h.get_of_opened hi]
    constructor
    · intro heq
      exact .inl ⟨id, hi, (Option.some.inj heq).symm⟩
    · rintro (⟨id', hi', rfl⟩ | heq)
      · rw [huniq id' (mem_running.mpr hi')]
      · cases heq
  · have hnone : ∀ id, (id, i) ∉ s.running := fun id hm => hi ⟨id, mem_running.mp hm⟩
    rw [get_markRunning_of_not_mem hnone]
    exact ⟨.inr, fun hor => hor.resolve_left fun ⟨id, hid, _⟩ => hi ⟨id, hid⟩⟩

theorem Inv.paired_markRunning (h : Inv events n s) :
    Paired (markRunning s.result s.running).get id i j ↔ Paired s.result.get id i j := by
  constructor
  · rintro ⟨hi, d, hj⟩
    refine ⟨(h.get_markRunning.mp hi).resolve_left ?_, d, (h.get_markRunning.mp hj).resolve_left ?_⟩
    · rintro ⟨id', -, heq⟩
      cases heq
    · rintro ⟨id', -, heq⟩
      cases heq
  · exact fun hp => hp.mono fun k info hk => h.get_markRunning.mpr (.inr hk)

/-- What the entries of the map say. -/
theorem Inv.entry (h : Inv events n s) {info : PairInfo ι}
    (hi : (markRunning s.result s.running).get i = some info) :
    (∃ id, IsStart events i id ∧ info = ⟨id, .start, none, none⟩) ∨
      Sound events (markRunning s.result s.running).get i info := by
  rcases h.get_markRunning.mp hi with ⟨id, hm, rfl⟩ | hget
  · exact .inl ⟨id, h.opened id i hm, rfl⟩
  · exact .inr ((h.sound i info hget).mono fun k x hk => h.get_markRunning.mpr (.inr hk))

theorem Inv.isStart_of_paired (h : Inv events n s) (hp : Paired s.result.get id i j) :
    IsStart events i id := by
  cases h.sound i _ hp.1 with
  | start hs => exact hs

theorem wellMatched_of_inv (h : Inv events events.length s) :
    WellMatched events (markRunning s.result s.running).get := by
  have hlt : ∀ {i e}, events[i]? = some e → i < events.length := fun he =>
    (List.getElem?_eq_some_iff.mp he).1
  refine ⟨fun i => ⟨fun hi => ?_, ?_⟩, fun i info hi => ?_, fun i j info hi hj => ?_,
    fun id i j k l hp hq => ?_, fun j info hj hrole => ?_, fun i info d hi hd => ?_⟩
  · obtain ⟨info, hinfo⟩ := Option.isSome_iff_exists.mp hi
    rcases h.entry hinfo with ⟨id, hs, -⟩ | hsound
    · exact .inl ⟨id, hs⟩
    · cases hsound with
      | start hs => exact .inl ⟨_, hs⟩
      | matched he => exact .inr ⟨_, he⟩
      | orphan he => exact .inr ⟨_, he⟩
  · rintro (⟨id, hs⟩ | ⟨id, he⟩)
    · obtain ⟨e, hget, hrest⟩ := hs
      rcases h.starts i id (hlt hget) ⟨e, hget, hrest⟩ with hm | ⟨j, hp⟩
      · exact Option.isSome_iff_exists.mpr ⟨_, h.get_markRunning.mpr (.inl ⟨id, hm, rfl⟩)⟩
      · exact Option.isSome_iff_exists.mpr ⟨_, h.get_markRunning.mpr (.inr hp.1)⟩
    · obtain ⟨e, hget, hrest⟩ := he
      have hsome := h.ends i id (hlt hget) ⟨e, hget, hrest⟩
      obtain ⟨info, hinfo⟩ := Option.isSome_iff_exists.mp hsome
      exact Option.isSome_iff_exists.mpr ⟨info, h.get_markRunning.mpr (.inr hinfo)⟩
  · rcases h.entry hi with ⟨id, hs, rfl⟩ | hsound
    · exact .inl ⟨rfl, hs⟩
    · cases hsound with
      | start hs => exact .inl ⟨rfl, hs⟩
      | matched he => exact .inr ⟨rfl, he⟩
      | orphan he => exact .inr ⟨rfl, he⟩
  · rcases h.entry hi with ⟨id, -, rfl⟩ | hsound
    · cases hj
    · cases hsound with
      | start hs hp =>
          obtain rfl := Option.some.inj hj
          exact .inl ⟨rfl, ((h.nested _).lt _ _ (h.paired_markRunning.mp hp)).1, hp⟩
      | matched he hp =>
          obtain rfl := Option.some.inj hj
          exact .inr ⟨rfl, ((h.nested _).lt _ _ (h.paired_markRunning.mp hp)).1, hp⟩
      | orphan he => cases hj
  · exact (h.nested id).uncrossed i j k l (h.paired_markRunning.mp hp) (h.paired_markRunning.mp hq)
  · rcases h.entry hj with ⟨id, -, rfl⟩ | hsound
    · cases hrole
    · cases hsound with
      | start => cases hrole
      | @matched id i _ d he hp =>
          refine ⟨fun hnone => absurd hnone (Option.some_ne_none i), fun hall => ?_⟩
          -- its own start is paired with it, and with nothing else
          have hpaired := h.paired_markRunning.mp hp
          obtain ⟨k, hk, hpk⟩ := hall i ((h.nested id).lt i j hpaired).1
            (h.isStart_of_paired hpaired)
          have heq := hp.1.symm.trans hpk.1
          obtain ⟨-, -, hjk, -⟩ := PairInfo.mk.inj (Option.some.inj heq)
          have := Option.some.inj hjk
          omega
      | orphan he hall => exact ⟨fun _ => hall, fun _ => rfl⟩
  · rcases h.entry hi with ⟨id, -, rfl⟩ | hsound
    · cases hd
    · cases hsound with
      | start => cases hd
      | matched he hp hnonneg => exact ⟨rfl, rfl, hnonneg d hd⟩
      | orphan he => cases hd

/-- **The map is a well-formed matching**, for every list of events. -/
theorem buildPairIndex_wellMatched (parse : Str → Option Int)
    (events : List (WorkflowHistoryEvent ι)) :
    WellMatched events (buildPairIndex parse events).get := by
  have h : Inv events (0 + events.length) (PairScan.run parse events {} 0 events) :=
    inv_run parse inv_init rfl
  rw [Nat.zero_add] at h
  exact wellMatched_of_inv h

end Step

end DevDashboard.Web
