/-
  File:      DevDashboard/Web/Replay/Replayer.lean
  Subject:   REPLAYING A HISTORY (engine/replay.ts), AND THE HISTORIES THAT TICKS WRITE.

  A replay starts over from a segment's start, feeds the recorded inputs at their ticks and
  compares the recorded outcomes with what the ticks report now. Crate results come from the
  history, orbs ask `impure` again.

  `Line start H vs s` says that ticks which reported what `H` records lead to `s`, with the
  orbs answered by `vs`. Live play writes such a line, and a replay that does not diverge is one
  (with answers of its own):

  * `LineFacts` -- what a line says of its history and its state: the events are in order, the
    state is on the course of its level, retries are spent by the attempts, ids are fresh;
  * `Line.cut` -- the states a line passes through;
  * `replay_line` -- **a line replays**: told the same answers, the replay accepts the history
    and ends in the same state;
  * `Follows.advance` -- **any replay** of a line that has not diverged is again a line with the
    same history, wherever its answers come from.
-/
import DevDashboard.Web.Replay.Course

namespace DevDashboard.Web.Replay

open Lib Asking

/-! ## 1. The replayer -/

/-- The questions to the outside world. -/
inductive Draw where
  | impure
  | chaos
  deriving DecidableEq

/-- `inputOf`. -/
def inputOf (e : InputEvent) : InputKind :=
  match e.what with
  | .input kind => .player kind
  | .orchestratorStarted => .resume
  | .retryAttempt _ _ => .retry

/-- An event, if it is an input. -/
def HistoryEvent.input? : HistoryEvent → Option InputEvent
  | .input e => some e
  | .outcome _ => none

/-- An event, if it is an outcome. -/
def HistoryEvent.outcome? : HistoryEvent → Option OutcomeEvent
  | .input _ => none
  | .outcome e => some e

/-- `e.type === a.type`. -/
def Outcome.sameType : Outcome → Outcome → Bool
  | .activityCoinCollected _, .activityCoinCollected _ => true
  | .activityCrateCollected _ _, .activityCrateCollected _ _ => true
  | .orbTaken _, .orbTaken _ => true
  | .circuitBreakerTripped _, .circuitBreakerTripped _ => true
  | .boostLost _, .boostLost _ => true
  | .fanOut, .fanOut => true
  | .fanIn _, .fanIn _ => true
  | _, _ => false

/-- `idOf`. -/
def Outcome.id : Outcome → ℕ
  | .activityCoinCollected id => id
  | .activityCrateCollected id _ => id
  | .orbTaken id => id
  | .circuitBreakerTripped id => id
  | .boostLost id => id
  | .fanOut => 0
  | .fanIn _ => 0

/-- What `matches` compares of two events. -/
def OutcomeEvent.same (e a : OutcomeEvent) : Bool :=
  e.what.sameType a.what && decide (e.what.id = a.what.id) && decide (e.hash = a.hash)

/-- `matches`. -/
def eventsMatch : List OutcomeEvent → List OutcomeEvent → Bool
  | [], [] => true
  | e :: expected, a :: actual => e.same a && eventsMatch expected actual
  | _, _ => false

/-- The results of crates among the outcomes, by id. -/
def cratesOf (outs : List OutcomeEvent) : List (ℕ × ℚ) :=
  outs.filterMap fun e =>
    match e.what with
    | .activityCrateCollected id result => some (id, result)
    | _ => none

/-- The outcomes of a history. -/
def outcomesOf (history : List HistoryEvent) : List OutcomeEvent :=
  history.filterMap HistoryEvent.outcome?

/-- The inputs of a history. -/
def inputsOf (history : List HistoryEvent) : List InputEvent :=
  history.filterMap HistoryEvent.input?

/-- `crateResults.get`: a later event overwrites an earlier one. -/
def crateResult (history : List HistoryEvent) (id : ℕ) : Option ℚ :=
  (cratesOf (outcomesOf history)).reverse.lookup id

/-- The ports of a replay. -/
def replayPorts (history : List HistoryEvent) : Port → Asking Draw ℚ ℚ
  | .impure => query .impure
  | .crateValue id =>
      match crateResult history id with
      | some result => .done result
      | none => query .impure

structure Replayer where
  history : List HistoryEvent
  toTick : ℕ
  state : GameState
  cursor : ℕ
  divergedAt : Option ℕ
  done : Bool

inductive ReplayResult where
  | ok (state : GameState)
  | diverged (divergedAt : ℕ) (state : GameState)

/-- `createReplayer`. -/
def createReplayer (A : Arith) (levels : LevelTable) (start : StartInput)
    (history : List HistoryEvent) (toTick : ℕ) : Replayer where
  history := history
  toTick := toTick
  state := initialState A levels start
  cursor := 0
  divergedAt := none
  done := decide (toTick ≤ 0)

namespace Replayer

/-- The events that are due at the replay's tick. -/
def due (r : Replayer) : List HistoryEvent :=
  (r.history.drop r.cursor).takeWhile fun e => decide (e.tick ≤ r.state.tick)

/-- Where a replay diverges that expected other events: at the tick's first outcome. -/
def divergence (r : Replayer) : ℕ :=
  match r.due.findIdx? fun e => e.outcome?.isSome with
  | some i => r.cursor + i
  | none => r.cursor + r.due.length

/-- What the replay makes of a tick. -/
def accept (r : Replayer) (next : StepResult) : Replayer :=
  let cursor := r.cursor + r.due.length
  let divergedAt :=
    if r.divergedAt = none ∧ eventsMatch (outcomesOf r.due) next.events = false then
      some r.divergence
    else r.divergedAt
  if next.state.status = .failed ∨ next.state.status = .retry then
    -- A replay that dies has diverged from a run that did not: stop just before.
    { r with cursor, divergedAt := some (divergedAt.getD cursor), done := true }
  else
    { r with
      cursor, divergedAt
      state := next.state
      done := decide (r.toTick ≤ next.state.tick ∨ next.state.status ≠ .running) }

/-- `advance(1)`, of a replayer that is not done. -/
def advance1 (A : Arith) (levels : LevelTable) (r : Replayer) : Asking Draw ℚ Replayer :=
  (step A levels r.state ((inputsOf r.due).map inputOf)).via (replayPorts r.history) >>= fun next =>
    .done (r.accept next)

/-- `advance`. -/
def advance (A : Arith) (levels : LevelTable) : ℕ → Replayer → Asking Draw ℚ Replayer
  | 0, r => .done r
  | n + 1, r => if r.done then .done r else r.advance1 A levels >>= advance A levels n

/-- `result`. -/
def result (r : Replayer) : ReplayResult :=
  match r.divergedAt with
  | none => .ok r.state
  | some i => .diverged i r.state

end Replayer

/-- `replay`; every tick but the last leaves one tick less to do, so `toTick` of them are all. -/
def replay (A : Arith) (levels : LevelTable) (start : StartInput) (history : List HistoryEvent)
    (toTick : ℕ) : Asking Draw ℚ ReplayResult :=
  (createReplayer A levels start history toTick).advance A levels toTick >>= fun r => .done r.result

variable {A : Arith} {levels : LevelTable} {start : StartInput}

/-! ## 2. Lists of events -/

@[simp] theorem outcomesOf_append (l m : List HistoryEvent) :
    outcomesOf (l ++ m) = outcomesOf l ++ outcomesOf m := List.filterMap_append

@[simp] theorem inputsOf_append (l m : List HistoryEvent) :
    inputsOf (l ++ m) = inputsOf l ++ inputsOf m := List.filterMap_append

@[simp] theorem outcomesOf_outcome (outs : List OutcomeEvent) :
    outcomesOf (outs.map .outcome) = outs := by
  simp [outcomesOf, List.filterMap_map, Function.comp_def, HistoryEvent.outcome?]

@[simp] theorem outcomesOf_input (ins : List InputEvent) : outcomesOf (ins.map .input) = [] := by
  simp [outcomesOf, HistoryEvent.outcome?]

@[simp] theorem inputsOf_input (ins : List InputEvent) : inputsOf (ins.map .input) = ins := by
  simp [inputsOf, List.filterMap_map, Function.comp_def, HistoryEvent.input?]

@[simp] theorem inputsOf_outcome (outs : List OutcomeEvent) :
    inputsOf (outs.map .outcome) = [] := by
  simp [inputsOf, HistoryEvent.input?]

@[simp] theorem cratesOf_append (l m : List OutcomeEvent) :
    cratesOf (l ++ m) = cratesOf l ++ cratesOf m := List.filterMap_append

theorem OutcomeEvent.same_refl (e : OutcomeEvent) : e.same e = true := by
  obtain ⟨tick, hash, what⟩ := e
  cases what <;> simp [OutcomeEvent.same, Outcome.sameType]

theorem eventsMatch_refl (l : List OutcomeEvent) : eventsMatch l l = true := by
  induction l with
  | nil => rfl
  | cons e l ih => simp [eventsMatch, OutcomeEvent.same_refl, ih]

/-- Events that match are picked up alike. -/
theorem pick?_of_same {e a : OutcomeEvent} (h : e.same a = true) : e.what.pick? = a.what.pick? := by
  obtain ⟨tick, hash, what⟩ := e
  obtain ⟨tick', hash', what'⟩ := a
  simp only [OutcomeEvent.same, Bool.and_eq_true, decide_eq_true_eq] at h
  obtain ⟨⟨htype, hid⟩, -⟩ := h
  cases what <;> cases what' <;> simp_all [Outcome.sameType, Outcome.pick?, Outcome.id]

theorem pickIds_of_match {expected actual : List OutcomeEvent}
    (h : eventsMatch expected actual = true) :
    pickIds (expected.map OutcomeEvent.what) = pickIds (actual.map OutcomeEvent.what) := by
  induction expected generalizing actual with
  | nil =>
      cases actual with
      | nil => rfl
      | cons a actual => simp [eventsMatch] at h
  | cons e expected ih =>
      cases actual with
      | nil => simp [eventsMatch] at h
      | cons a actual =>
          simp only [eventsMatch, Bool.and_eq_true] at h
          simp only [pickIds, List.map_cons, List.filterMap_cons, pick?_of_same h.1]
          have := ih h.2
          simp only [pickIds] at this
          rw [this]

/-! ## 3. Lines -/

/-- What crates were told in a transcript. -/
def crateAnswers (tr : List (Port × ℚ)) : List (ℕ × ℚ) :=
  tr.filterMap fun a =>
    match a.1 with
    | .crateValue id => some (id, a.2)
    | .impure => none

/-- What orbs were told in a transcript. -/
def orbAnswers (tr : List (Port × ℚ)) : List ℚ :=
  tr.filterMap fun a =>
    match a.1 with
    | .crateValue _ => none
    | .impure => some a.2

/-- `Line start H vs s`: ticks from `start` that reported what `H` records, with the orbs told
    `vs`, lead to `s`. -/
inductive Line (A : Arith) (levels : LevelTable) (start : StartInput) :
    List HistoryEvent → List ℚ → GameState → Prop where
  | nil : Line A levels start [] [] (initialState A levels start)
  | tick {H : List HistoryEvent} {vs : List ℚ} {s : GameState} (h : Line A levels start H vs s)
      (hs : s.status = .running) {ins : List InputEvent} {outs : List OutcomeEvent}
      (hins : ∀ e ∈ ins, e.tick = s.tick) (houts : ∀ e ∈ outs, e.tick = s.tick)
      {tr : List (Port × ℚ)} {r : StepResult}
      (hstep : (step A levels s (ins.map inputOf)).Gives tr r)
      (hgo : r.state.status = .running ∨ r.state.status = .levelDone)
      (hmatch : eventsMatch outs r.events = true) (hcrates : crateAnswers tr = cratesOf outs) :
      Line A levels start (H ++ ins.map .input ++ outs.map .outcome) (vs ++ orbAnswers tr) r.state

/-- The retries among the inputs of a history. -/
def attempts (history : List HistoryEvent) : ℕ :=
  ((inputsOf history).map inputOf).count .retry

theorem attempts_append (l m : List HistoryEvent) :
    attempts (l ++ m) = attempts l + attempts m := by
  simp [attempts, List.count_append]

theorem attempts_outcome (outs : List OutcomeEvent) : attempts (outs.map .outcome) = 0 := by
  simp [attempts]

/-- The orbs and crates of a history. -/
def picked (history : List HistoryEvent) : List ℕ :=
  pickIds ((outcomesOf history).map OutcomeEvent.what)

theorem picked_append (l m : List HistoryEvent) : picked (l ++ m) = picked l ++ picked m := by
  simp [picked, pickIds_append]

theorem picked_input (ins : List InputEvent) : picked (ins.map .input) = [] := by
  simp [picked, pickIds]

theorem picked_outcome (outs : List OutcomeEvent) :
    picked (outs.map .outcome) = pickIds (outs.map OutcomeEvent.what) := by
  simp [picked]

/-- What a line says of its history and its state. -/
structure LineFacts (A : Arith) (levels : LevelTable) (start : StartInput) (H : List HistoryEvent)
    (s : GameState) : Prop where
  level : s.level = start.level
  ticks : ∀ e ∈ H, e.tick < s.tick
  ordered : H.Pairwise fun e f => e.tick ≤ f.tick
  course : courseOf s = (Course.next A levels)^[s.tick] (courseOf (initialState A levels start))
  /-- Past its first tick, a state has ended its level exactly if the course says so. -/
  status : s.status = .running ∨ s.status = .levelDone
  ended : 0 < s.tick → (s.status = .levelDone ↔ (courseOf s).Ended A levels)
  fresh : s.tick = 0 → s.status = .running
  retries : s.retries = start.retries - attempts H
  ids : (picked H ++ freeIds s).Nodup
  bound : ∀ i ∈ picked H ++ freeIds s, i < s.nextId

theorem Line.facts {H : List HistoryEvent} {vs : List ℚ} {s : GameState}
    (h : Line A levels start H vs s) : LineFacts A levels start H s := by
  induction h with
  | nil =>
      refine ⟨rfl, by simp, .nil, rfl, .inl rfl, ?_, fun _ => rfl, rfl, ?_, ?_⟩
      · intro h
        exact absurd h (by simp [initialState])
      · exact List.nodup_nil
      · simp [picked, outcomesOf, pickIds, freeIds, freeIn, allEntities, initialState]
  | @tick H vs s h hs ins outs hins houts tr r hstep hgo hmatch hcrates ih =>
      have st := step_gives hs hstep
      have hpicked : picked (H ++ ins.map .input ++ outs.map .outcome) =
          picked H ++ pickIds (r.events.map OutcomeEvent.what) := by
        rw [picked_append, picked_append, picked_input, picked_outcome, List.append_nil,
          pickIds_of_match hmatch]
      have hgrown := (st.grown.add_left (picked H))
      rw [Multiset.coe_add] at hgrown
      obtain ⟨hnodup, hbound⟩ := hgrown.nodup ih.ids ih.bound
      rw [← add_assoc, Multiset.coe_add, ← hpicked, Multiset.coe_add] at hnodup hbound
      obtain ⟨hcourse, hended⟩ := st.course hgo
      refine ⟨st.level.trans ih.level, ?_, ?_, ?_, hgo, fun _ => hended, ?_, ?_, hnodup, hbound⟩
      · intro e he
        rw [st.tick]
        rcases List.mem_append.mp he with he | he
        · rcases List.mem_append.mp he with he | he
          · exact (ih.ticks e he).trans (Nat.lt_succ_self _)
          · obtain ⟨i, hi, rfl⟩ := List.mem_map.mp he
            exact Nat.lt_succ_of_le (hins i hi).le
        · obtain ⟨o, ho, rfl⟩ := List.mem_map.mp he
          exact Nat.lt_succ_of_le (houts o ho).le
      · have hnew : ∀ e ∈ ins.map HistoryEvent.input ++ outs.map .outcome, e.tick = s.tick := by
          intro e he
          rcases List.mem_append.mp he with he | he
          · obtain ⟨i, hi, rfl⟩ := List.mem_map.mp he
            exact hins i hi
          · obtain ⟨o, ho, rfl⟩ := List.mem_map.mp he
            exact houts o ho
        rw [List.append_assoc]
        refine List.pairwise_append.mpr ⟨ih.ordered, ?_, ?_⟩
        · exact List.pairwise_of_forall_mem_list fun e he f hf => (by rw [hnew e he, hnew f hf])
        · intro e he f hf
          rw [hnew f hf]
          exact (ih.ticks e he).le
      · rw [st.tick, Function.iterate_succ_apply', hcourse, ih.course]
      · intro h0
        rw [st.tick] at h0
        exact absurd h0 (Nat.succ_ne_zero _)
      · rw [st.retries, ih.retries, attempts_append, attempts_append, attempts_outcome]
        simp [attempts, Nat.sub_sub]

/-- What a line says of the tick `n` it goes through: the events of earlier ticks, the inputs and
    the outcomes of the tick, and later ones. -/
structure ChunkAt (A : Arith) (levels : LevelTable) (start : StartInput) (H : List HistoryEvent)
    (n : ℕ) (Hn : List HistoryEvent) (ins : List InputEvent) (outs : List OutcomeEvent)
    (tl : List HistoryEvent) : Prop where
  split : H = Hn ++ (ins.map .input ++ outs.map .outcome) ++ tl
  before : ∀ e ∈ Hn, e.tick < n
  ins : ∀ e ∈ ins, e.tick = n
  outs : ∀ e ∈ outs, e.tick = n
  after : ∀ e ∈ tl, n < e.tick
  line : ∃ vs s, Line A levels start Hn vs s ∧ s.tick = n ∧ s.status = .running

theorem Line.chunk {H : List HistoryEvent} {vs : List ℚ} {s : GameState}
    (h : Line A levels start H vs s) {n : ℕ} (hn : n < s.tick) :
    ∃ Hn ins outs tl, ChunkAt A levels start H n Hn ins outs tl := by
  induction h with
  | nil => exact absurd hn (Nat.not_lt_zero n)
  | @tick H vs s h hs ins outs hins houts tr r hstep hgo hmatch hcrates ih =>
      have st := step_gives hs hstep
      rw [st.tick] at hn
      rcases Nat.lt_succ_iff_lt_or_eq.mp hn with hlt | rfl
      · obtain ⟨Hn, ins', outs', tl, hc⟩ := ih hlt
        refine ⟨Hn, ins', outs', tl ++ (ins.map .input ++ outs.map .outcome), ?_, hc.before, hc.ins,
          hc.outs, ?_, hc.line⟩
        · rw [hc.split]
          simp only [List.append_assoc]
        · intro e he
          rcases List.mem_append.mp he with he | he
          · exact hc.after e he
          · rcases List.mem_append.mp he with he | he
            · obtain ⟨i, hi, rfl⟩ := List.mem_map.mp he
              exact hlt.trans_eq (hins i hi).symm
            · obtain ⟨o, ho, rfl⟩ := List.mem_map.mp he
              exact hlt.trans_eq (houts o ho).symm
      · exact ⟨H, ins, outs, [], by simp, h.facts.ticks, hins, houts, by simp, vs, s, h, rfl, hs⟩

/-- A line that is still running was not at the end of its level before. -/
theorem Line.open_at {H : List HistoryEvent} {vs : List ℚ} {s : GameState}
    (h : Line A levels start H vs s) (hs : s.status = .running) {n : ℕ} (hpos : 0 < n)
    (hn : n ≤ s.tick) :
    ¬ ((Course.next A levels)^[n] (courseOf (initialState A levels start))).Ended A levels := by
  have hopen : ∀ {H vs s}, Line A levels start H vs s → s.status = .running → s.tick = n →
      ¬ ((Course.next A levels)^[n] (courseOf (initialState A levels start))).Ended A levels := by
    rintro H vs s h hs rfl hend
    rw [← h.facts.course, ← h.facts.ended hpos, hs] at hend
    cases hend
  rcases hn.lt_or_eq with hlt | rfl
  · obtain ⟨_, _, _, _, hc⟩ := h.chunk hlt
    obtain ⟨vs', s', hl, htick, hrun⟩ := hc.line
    exact hopen hl hrun htick
  · exact hopen h hs rfl

/-! ## 4. A line replays -/

theorem lookup_of_mem_nodup {α β : Type} [DecidableEq α] {l : List (α × β)}
    (h : (l.map Prod.fst).Nodup) {k : α} {v : β} (hm : (k, v) ∈ l) : l.lookup k = some v := by
  induction l with
  | nil => exact absurd hm List.not_mem_nil
  | cons x l ih =>
      rw [List.map_cons, List.nodup_cons] at h
      rcases List.mem_cons.mp hm with rfl | hm
      · exact List.lookup_cons_self
      · have hne : k ≠ x.1 := by
          rintro rfl
          exact h.1 (List.mem_map.mpr ⟨_, hm, rfl⟩)
        rw [List.lookup_cons, beq_false_of_ne hne]
        exact ih h.2 hm

theorem cratesOf_ids (outs : List OutcomeEvent) :
    ((cratesOf outs).map Prod.fst).Sublist (pickIds (outs.map OutcomeEvent.what)) := by
  induction outs with
  | nil => exact List.Sublist.refl _
  | cons e outs ih =>
      obtain ⟨tick, hash, what⟩ := e
      cases what with
      | activityCrateCollected id result => exact ih.cons_cons id
      | orbTaken id => exact ih.cons id
      | activityCoinCollected id => exact ih
      | circuitBreakerTripped id => exact ih
      | boostLost id => exact ih
      | fanOut => exact ih
      | fanIn results => exact ih

/-- Every crate of a history is found under its id. -/
theorem crateResult_of_mem {history : List HistoryEvent} (h : (picked history).Nodup) {id : ℕ}
    {v : ℚ} (hm : (id, v) ∈ cratesOf (outcomesOf history)) : crateResult history id = some v := by
  have hids := (cratesOf_ids (outcomesOf history)).nodup h
  refine lookup_of_mem_nodup ?_ (List.mem_reverse.mpr hm)
  rw [List.map_reverse]
  exact List.nodup_reverse.mpr hids

/-- The transcript of a replay in which every crate is on record: only orbs ask. -/
theorem answered_of_crates {history : List HistoryEvent} {tr : List (Port × ℚ)}
    (h : ∀ p ∈ crateAnswers tr, crateResult history p.1 = some p.2) :
    Answered (replayPorts history) tr ((orbAnswers tr).map fun v => (.impure, v)) := by
  induction tr with
  | nil => exact .nil
  | cons a tr ih =>
      obtain ⟨q, v⟩ := a
      cases q with
      | impure =>
          exact Answered.cons (f := replayPorts history) (t := [(Draw.impure, v)])
            (gives_query.mpr rfl) (ih h)
      | crateValue id =>
          have hid : crateResult history id = some v := h (id, v) List.mem_cons_self
          refine Answered.cons (t := []) ?_ (ih fun p hp => h p (List.mem_cons_of_mem _ hp))
          simp only [replayPorts, hid, gives_done, and_self]

/-- The events a replayer has to look at in a tick. -/
theorem Replayer.due_eq {r : Replayer} {H tl : List HistoryEvent} {ins : List InputEvent}
    {outs : List OutcomeEvent}
    (hsplit : r.history = H ++ (ins.map .input ++ outs.map .outcome) ++ tl)
    (hcursor : r.cursor = H.length) (hins : ∀ e ∈ ins, e.tick = r.state.tick)
    (houts : ∀ e ∈ outs, e.tick = r.state.tick) (hafter : ∀ e ∈ tl, r.state.tick < e.tick) :
    r.due = ins.map .input ++ outs.map .outcome := by
  unfold Replayer.due
  rw [hsplit, hcursor, List.append_assoc, List.drop_left]
  have hchunk : ∀ e ∈ ins.map HistoryEvent.input ++ outs.map .outcome,
      decide (e.tick ≤ r.state.tick) = true := by
    intro e he
    rw [decide_eq_true_eq]
    rcases List.mem_append.mp he with he | he
    · obtain ⟨i, hi, rfl⟩ := List.mem_map.mp he
      exact (hins i hi).le
    · obtain ⟨o, ho, rfl⟩ := List.mem_map.mp he
      exact (houts o ho).le
  have htl : tl.takeWhile (fun e => decide (e.tick ≤ r.state.tick)) = [] := by
    cases tl with
    | nil => rfl
    | cons e tl =>
        have := hafter e List.mem_cons_self
        simp only [List.takeWhile_cons, decide_eq_true_eq, this.not_ge, if_false]
  rw [List.takeWhile_append_of_pos hchunk, htl, List.append_nil]

/-- One tick more. -/
theorem Replayer.advance_snoc {n : ℕ} {r r' r'' : Replayer} {t u : List (Draw × ℚ)}
    (h : (r.advance A levels n).Gives t r') (hdone : r'.done = false)
    (h' : (r'.advance1 A levels).Gives u r'') : (r.advance A levels (n + 1)).Gives (t ++ u) r'' := by
  induction n generalizing r t with
  | zero =>
      obtain ⟨rfl, rfl⟩ := gives_done.mp h
      rw [Replayer.advance, if_neg (by simp [hdone])]
      exact gives_bind.mpr ⟨u, [], r'', by simp, h', .done _⟩
  | succ n ih =>
      rw [Replayer.advance] at h ⊢
      by_cases hd : r.done = true
      · rw [if_pos hd] at h
        obtain ⟨rfl, rfl⟩ := gives_done.mp h
        rw [hd] at hdone
        cases hdone
      · rw [if_neg hd] at h ⊢
        obtain ⟨t, v, r₁, rfl, h1, h2⟩ := gives_bind.mp h
        exact gives_bind.mpr ⟨t, v ++ u, r₁, List.append_assoc _ _ _, h1, ih h2⟩

/-- **A line replays**: told the values of its orbs, the replay of a history that begins with the
    line's goes on without divergence to the line's state. -/
theorem Line.advance {H : List HistoryEvent} {vs : List ℚ} {s : GameState}
    (h : Line A levels start H vs s) {rest : List HistoryEvent}
    (hrest : ∀ e ∈ rest, s.tick ≤ e.tick) (hids : (picked (H ++ rest)).Nodup) {toTick : ℕ}
    (hto : s.tick ≤ toTick) :
    ((createReplayer A levels start (H ++ rest) toTick).advance A levels s.tick).Gives
      (vs.map fun v => (.impure, v))
      ⟨H ++ rest, toTick, s, H.length, none, decide (toTick ≤ s.tick ∨ s.status ≠ .running)⟩ := by
  induction h generalizing rest with
  | nil =>
      have hstart : createReplayer A levels start ([] ++ rest) toTick = ⟨[] ++ rest, toTick,
          initialState A levels start, 0, none,
          decide (toTick ≤ (initialState A levels start).tick ∨
            (initialState A levels start).status ≠ .running)⟩ := by
        simp [createReplayer, initialState]
      rw [hstart]
      exact .done _
  | @tick H vs s h hs ins outs hins houts tr r hstep hgo hmatch hcrates ih =>
      have st := step_gives hs hstep
      rw [st.tick] at hrest hto ⊢
      have hrest' : ∀ e ∈ ins.map HistoryEvent.input ++ outs.map .outcome ++ rest,
          s.tick ≤ e.tick := by
        intro e he
        rcases List.mem_append.mp he with he | he
        · rcases List.mem_append.mp he with he | he
          · obtain ⟨i, hi, rfl⟩ := List.mem_map.mp he
            exact (hins i hi).ge
          · obtain ⟨o, ho, rfl⟩ := List.mem_map.mp he
            exact (houts o ho).ge
        · exact (Nat.le_succ _).trans (hrest e he)
      have hassoc : H ++ ins.map HistoryEvent.input ++ outs.map .outcome ++ rest =
          H ++ (ins.map .input ++ outs.map .outcome ++ rest) := by
        simp only [List.append_assoc]
      rw [hassoc] at hids ⊢
      have hgo' := ih hrest' hids (Nat.le_of_succ_le hto)
      generalize hhist : H ++ (ins.map HistoryEvent.input ++ outs.map .outcome ++ rest) = history
        at hids hgo' ⊢
      have hnd : decide (toTick ≤ s.tick ∨ s.status ≠ .running) = false := by
        rw [decide_eq_false_iff_not, hs]
        simp only [ne_eq, not_true_eq_false, or_false, not_le]
        exact hto
      rw [hnd] at hgo'
      -- The tick: every crate is on record, so only the orbs ask.
      have hdue : Replayer.due ⟨history, toTick, s, H.length, none, false⟩ =
          ins.map .input ++ outs.map .outcome := by
        have hsplit : history = H ++ (ins.map .input ++ outs.map .outcome) ++ rest := by
          rw [← hhist]
          simp only [List.append_assoc]
        exact Replayer.due_eq hsplit rfl hins houts fun e he => hrest e he
      have hans : Answered (replayPorts history) tr ((orbAnswers tr).map fun v => (.impure, v)) := by
        refine answered_of_crates fun p hp => crateResult_of_mem hids ?_
        rw [hcrates] at hp
        rw [← hhist]
        simp only [outcomesOf_append, outcomesOf_input, outcomesOf_outcome, cratesOf_append,
          List.mem_append]
        exact .inr (.inl (.inr hp))
      have hnext : (Replayer.advance1 A levels ⟨history, toTick, s, H.length, none, false⟩).Gives
          ((orbAnswers tr).map fun v => (.impure, v))
          (Replayer.accept ⟨history, toTick, s, H.length, none, false⟩ r) := by
        refine gives_bind.mpr ⟨_, [], r, (List.append_nil _).symm, gives_via.mpr ⟨tr, ?_, hans⟩,
          .done _⟩
        rw [hdue]
        simpa using hstep
      have hacc := Replayer.advance_snoc hgo' rfl hnext
      rw [← List.map_append] at hacc
      have hfin : Replayer.accept ⟨history, toTick, s, H.length, none, false⟩ r =
          ⟨history, toTick, r.state,
            (H ++ ins.map HistoryEvent.input ++ outs.map HistoryEvent.outcome).length, none,
            decide (toTick ≤ s.tick + 1 ∨ r.state.status ≠ .running)⟩ := by
        have hlive : ¬ (r.state.status = .failed ∨ r.state.status = .retry) := by
          rcases hgo with h | h <;> simp [h]
        unfold Replayer.accept
        rw [hdue]
        simp [hmatch, hlive, st.tick]
      rwa [hfin] at hacc

/-- **What a line wrote, `replay` accepts**, and it ends in the line's state. -/
theorem replay_line {H : List HistoryEvent} {vs : List ℚ} {s : GameState}
    (h : Line A levels start H vs s) {rest : List HistoryEvent}
    (hrest : ∀ e ∈ rest, s.tick ≤ e.tick) (hids : (picked (H ++ rest)).Nodup) :
    (replay A levels start (H ++ rest) s.tick).Gives (vs.map fun v => (.impure, v)) (.ok s) :=
  gives_bind.mpr ⟨_, [], _, (List.append_nil _).symm, h.advance hrest hids le_rfl, .done _⟩

/-! ## 5. Any replay of a line -/

/-- A replayer at work on a line that leads to `s`: the events before its tick are behind it, and
    as long as it has not diverged it is on a line of its own. -/
structure Follows (A : Arith) (levels : LevelTable) (start : StartInput) (H : List HistoryEvent)
    (s : GameState) (rest : List HistoryEvent) (r : Replayer) : Prop where
  history : r.history = H ++ rest
  toTick : r.toTick = s.tick
  running : r.state.status = .running
  course : courseOf r.state =
    (Course.next A levels)^[r.state.tick] (courseOf (initialState A levels start))
  cut : ∃ Hn tl, H = Hn ++ tl ∧ (∀ e ∈ Hn, e.tick < r.state.tick) ∧
    (∀ e ∈ tl, r.state.tick ≤ e.tick) ∧ (r.done = false → r.cursor = Hn.length) ∧
    r.state.retries = start.retries - attempts Hn ∧
    (r.divergedAt = none → ∃ vs, Line A levels start Hn vs r.state)
  tick : r.state.tick ≤ s.tick
  done : if r.done then r.divergedAt = none → r.state.tick = s.tick else r.state.tick < s.tick

theorem Follows.create (H : List HistoryEvent) (s : GameState) (rest : List HistoryEvent) :
    Follows A levels start H s rest (createReplayer A levels start (H ++ rest) s.tick) where
  history := rfl
  toTick := rfl
  running := rfl
  course := rfl
  cut := ⟨[], H, rfl, by simp, fun _ _ => Nat.zero_le _, fun _ => rfl, rfl, fun _ => ⟨[], .nil⟩⟩
  tick := Nat.zero_le _
  done := by
    by_cases hz : s.tick ≤ 0
    · rw [if_pos (by simpa [createReplayer] using hz)]
      intro _
      exact (Nat.le_zero.mp hz).symm
    · rw [if_neg (by simpa [createReplayer] using hz)]
      exact Nat.pos_of_ne_zero fun h0 => hz h0.le

/-- Lists with the same keys in order are equal if a function fixes the values of both. -/
theorem eq_of_keys {α β : Type} {f : α → Option β} {l m : List (α × β)}
    (hkeys : l.map Prod.fst = m.map Prod.fst) (hl : ∀ p ∈ l, f p.1 = some p.2)
    (hm : ∀ p ∈ m, ∀ w, f p.1 = some w → p.2 = w) : l = m := by
  induction l generalizing m with
  | nil =>
      cases m with
      | nil => rfl
      | cons y m => simp at hkeys
  | cons x l ih =>
      cases m with
      | nil => simp at hkeys
      | cons y m =>
          simp only [List.map_cons, List.cons.injEq] at hkeys
          have hx := hl x List.mem_cons_self
          have hy := hm y List.mem_cons_self x.2 (by rw [← hkeys.1]; exact hx)
          rw [ih hkeys.2 (fun p hp => hl p (List.mem_cons_of_mem _ hp))
            (fun p hp => hm p (List.mem_cons_of_mem _ hp))]
          congr 1
          exact Prod.ext hkeys.1 hy.symm

/-- The crates of events that match are the same ones. -/
theorem crateIds_of_match {expected actual : List OutcomeEvent}
    (h : eventsMatch expected actual = true) :
    (cratesOf expected).map Prod.fst = (cratesOf actual).map Prod.fst := by
  have hsame : ∀ {e a : OutcomeEvent}, e.same a = true →
      (cratesOf [e]).map Prod.fst = (cratesOf [a]).map Prod.fst := by
    rintro ⟨tick, hash, what⟩ ⟨tick', hash', what'⟩ h
    simp only [OutcomeEvent.same, Bool.and_eq_true, decide_eq_true_eq] at h
    obtain ⟨⟨htype, hid⟩, -⟩ := h
    cases what <;> cases what' <;> simp_all [Outcome.sameType, cratesOf, Outcome.id]
  induction expected generalizing actual with
  | nil =>
      cases actual with
      | nil => rfl
      | cons a actual => simp [eventsMatch] at h
  | cons e expected ih =>
      cases actual with
      | nil => simp [eventsMatch] at h
      | cons a actual =>
          simp only [eventsMatch, Bool.and_eq_true] at h
          have h1 := hsame h.1
          have h2 := ih h.2
          rw [← List.singleton_append, cratesOf_append, List.map_append, h1, h2, ← List.map_append,
            ← cratesOf_append, List.singleton_append]

/-- A crate reports what it was told. -/
theorem Asked.crates {evs : List Outcome} {tr : List (Port × ℚ)} (h : Asked evs tr) (tick : ℕ)
    (hash : BitVec 32) :
    crateAnswers tr = cratesOf (evs.map fun what => ⟨tick, hash, what⟩) := by
  induction h with
  | nil => rfl
  | orb id v _ ih => exact ih
  | crate id v _ ih => exact congrArg (List.cons (id, v)) ih
  | @other ev hev evs tr _ ih =>
      cases ev with
      | activityCrateCollected id result => simp [Outcome.pick?] at hev
      | orbTaken id => exact ih
      | activityCoinCollected id => exact ih
      | circuitBreakerTripped id => exact ih
      | boostLost id => exact ih
      | fanOut => exact ih
      | fanIn results => exact ih

/-- A crate on record is told its recorded result. -/
theorem crateAnswers_of_answered {history : List HistoryEvent} {tr : List (Port × ℚ)}
    {u : List (Draw × ℚ)} (h : Answered (replayPorts history) tr u) :
    ∀ p ∈ crateAnswers tr, ∀ w, crateResult history p.1 = some w → p.2 = w := by
  induction h with
  | nil => simp [crateAnswers]
  | @cons q v t u tr hq _ ih =>
      cases q with
      | impure => exact ih
      | crateValue id =>
          intro p hp w hw
          rcases List.mem_cons.mp hp with rfl | hp
          · simp only [replayPorts, hw] at hq
            exact (gives_done.mp hq).2
          · exact ih p hp w hw

/-- **Any replay of a line**, one tick: whatever the answers, it goes on along the line's course,
    and as long as it does not diverge it is on a line with the same history. -/
theorem Follows.advance1 {H : List HistoryEvent} {vs : List ℚ} {s : GameState}
    (h : Line A levels start H vs s) (hs : s.status = .running) {rest : List HistoryEvent}
    (hrest : ∀ e ∈ rest, s.tick ≤ e.tick) (hids : (picked (H ++ rest)).Nodup) {r : Replayer}
    (hr : Follows A levels start H s rest r) (hdone : r.done = false) :
    (r.advance1 A levels).Always (Follows A levels start H s rest) := by
  intro t r' hr'
  obtain ⟨t, u, next, rfl, hnext, hacc⟩ := gives_bind.mp hr'
  obtain ⟨rfl, rfl⟩ := gives_done.mp hacc
  obtain ⟨trp, hstep, hans⟩ := gives_via.mp hnext
  have htick : r.state.tick < s.tick := by
    have := hr.done
    rwa [hdone, if_neg (by decide)] at this
  -- The tick's events, and the state's line up to them.
  obtain ⟨Hn, ins, outs, tl, hc⟩ := h.chunk htick
  obtain ⟨Hn', tl', hsplit, hbefore, hafter, hcursor, hretries, hline⟩ := hr.cut
  have hHn : Hn' = Hn := by
    have hfilter : ∀ {l m : List HistoryEvent}, (∀ e ∈ l, e.tick < r.state.tick) →
        (∀ e ∈ m, r.state.tick ≤ e.tick) →
        (l ++ m).filter (fun e => decide (e.tick < r.state.tick)) = l := by
      intro l m hl hm
      rw [List.filter_append, List.filter_eq_self.mpr fun e he => decide_eq_true (hl e he),
        List.filter_eq_nil_iff.mpr fun e he => by simpa using hm e he, List.append_nil]
    have h1 := hfilter hbefore hafter
    have h2 := hfilter (l := Hn) (m := ins.map .input ++ outs.map .outcome ++ tl) hc.before (by
      intro e he
      rcases List.mem_append.mp he with he | he
      · rcases List.mem_append.mp he with he | he
        · obtain ⟨i, hi, rfl⟩ := List.mem_map.mp he
          exact (hc.ins i hi).ge
        · obtain ⟨o, ho, rfl⟩ := List.mem_map.mp he
          exact (hc.outs o ho).ge
      · exact (hc.after e he).le)
    rw [← h1, ← h2, ← hsplit, hc.split]
    simp only [List.append_assoc]
  subst hHn
  have hdue : r.due = ins.map .input ++ outs.map .outcome := by
    have hsplit : r.history = Hn' ++ (ins.map .input ++ outs.map .outcome) ++ (tl ++ rest) := by
      rw [hr.history, hc.split]
      simp only [List.append_assoc]
    refine Replayer.due_eq hsplit (hcursor hdone) hc.ins hc.outs fun e he => ?_
    rcases List.mem_append.mp he with he | he
    · exact hc.after e he
    · exact htick.trans_le (hrest e he)
  rw [hdue] at hstep
  simp only [inputsOf_append, inputsOf_input, inputsOf_outcome, List.append_nil] at hstep
  have st := step_gives hr.running hstep
  have hnew : ∀ e ∈ ins.map HistoryEvent.input ++ outs.map .outcome, e.tick = r.state.tick := by
    intro e he
    rcases List.mem_append.mp he with he | he
    · obtain ⟨i, hi, rfl⟩ := List.mem_map.mp he
      exact hc.ins i hi
    · obtain ⟨o, ho, rfl⟩ := List.mem_map.mp he
      exact hc.outs o ho
  unfold Replayer.accept
  rw [hdue]
  by_cases hdead : next.state.status = .failed ∨ next.state.status = .retry
  · -- It dies: it stays where it was.
    rw [if_pos hdead]
    refine ⟨hr.history, hr.toTick, hr.running, hr.course, ?_, htick.le, ?_⟩
    · exact ⟨Hn', tl', hsplit, hbefore, hafter, fun h => by simp at h, hretries, fun h => by simp at h⟩
    · rw [if_pos rfl]
      intro h
      simp at h
  · rw [if_neg hdead]
    have hgo : next.state.status = .running ∨ next.state.status = .levelDone := by
      cases hst : next.state.status <;> simp_all
    obtain ⟨hcourse, hended⟩ := st.course hgo
    have hcourse' : courseOf next.state = (Course.next A levels)^[next.state.tick]
        (courseOf (initialState A levels start)) := by
      rw [st.tick, Function.iterate_succ_apply', hcourse, hr.course]
    have hrun : next.state.status = .running := by
      refine hgo.resolve_right fun hend => ?_
      have hopen := h.open_at hs (n := r.state.tick + 1) (Nat.succ_pos _) htick
      rw [← st.tick, ← hcourse', ← hended] at hopen
      exact hopen hend
    refine ⟨hr.history, hr.toTick, hrun, hcourse', ?_, ?_, ?_⟩
    · refine ⟨Hn' ++ (ins.map .input ++ outs.map .outcome), tl, hc.split, ?_, ?_, ?_, ?_, ?_⟩
      · intro e he
        simp only [st.tick]
        rcases List.mem_append.mp he with he | he
        · exact (hbefore e he).trans (Nat.lt_succ_self _)
        · exact Nat.lt_succ_of_le (hnew e he).le
      · intro e he
        simp only [st.tick]
        exact hc.after e he
      · intro _
        simp [hcursor hdone]
      · simp only [st.retries, hretries, attempts_append, attempts_outcome]
        simp [attempts, Nat.sub_sub]
      · -- Not diverged: the events of the tick matched.
        intro hnone
        simp only [outcomesOf_append, outcomesOf_input, outcomesOf_outcome, List.nil_append] at hnone
        split at hnone
        · simp at hnone
        · rename_i hok
          have hmatch : eventsMatch outs next.events = true := by
            rw [not_and, Bool.not_eq_false] at hok
            exact hok hnone
          obtain ⟨vs', hl⟩ := hline hnone
          obtain ⟨evs, hask, hevents⟩ := st.events
          have hcrates : crateAnswers trp = cratesOf outs := by
            have hask := hask.crates r.state.tick (hashState A next.state)
            rw [← hevents] at hask
            refine (eq_of_keys (f := crateResult (H ++ rest)) ?_ ?_ ?_).symm
            · rw [hask]
              exact crateIds_of_match hmatch
            · intro p hp
              refine crateResult_of_mem hids ?_
              rw [hc.split]
              simp only [outcomesOf_append, outcomesOf_outcome, cratesOf_append, List.mem_append]
              exact .inl (.inl (.inr (.inr hp)))
            · have := crateAnswers_of_answered hans
              rwa [hr.history] at this
          have hl' := Line.tick hl hr.running hc.ins hc.outs hstep hgo hmatch hcrates
          rw [List.append_assoc] at hl'
          exact ⟨_, hl'⟩
    · simp only [st.tick]
      exact htick
    · rw [hr.toTick]
      by_cases hend : s.tick ≤ next.state.tick
      · rw [if_pos (by simpa using .inl hend)]
        intro _
        rw [st.tick] at hend
        simp only [st.tick]
        omega
      · rw [if_neg (by simpa [hrun] using hend)]
        exact Nat.lt_of_not_le hend

theorem Follows.advance {H : List HistoryEvent} {vs : List ℚ} {s : GameState}
    (h : Line A levels start H vs s) (hs : s.status = .running) {rest : List HistoryEvent}
    (hrest : ∀ e ∈ rest, s.tick ≤ e.tick) (hids : (picked (H ++ rest)).Nodup) (n : ℕ)
    {r : Replayer} (hr : Follows A levels start H s rest r) :
    (r.advance A levels n).Always (Follows A levels start H s rest) := by
  induction n generalizing r with
  | zero => exact always_done.mpr hr
  | succ n ih =>
      rw [Replayer.advance]
      by_cases hd : r.done = true
      · rw [if_pos hd]
        exact always_done.mpr hr
      · rw [if_neg hd]
        exact (hr.advance1 h hs hrest hids (by simpa using hd)).bind fun r' hr' => ih hr'

end DevDashboard.Web.Replay
