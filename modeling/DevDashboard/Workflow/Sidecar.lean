/-
  File:      DevDashboard/Workflow/Sidecar.lean
  Subject:   THE HISTORY A SIDECAR RETURNS (`Get` of `pkg/workflow/sidecar.go`).

  Two events that both have an `EventId` are compared by it, any others by their timestamps. The
  two do not fit together: an event without an id may stand, in time, between two that their ids
  put the other way round.

  * `historyLess_iff` -- what the comparison says;
  * `historyOrder_iff` -- it orders a history exactly if no event stands so (`Straddled`).
-/
import DevDashboard.Lib.WeakOrder
import DevDashboard.Workflow.Decode
import Mathlib.Data.List.Permutation

namespace DevDashboard.Workflow

open Lib

/-! ## 1. The comparison -/

/-- `GetTimestamp().AsTime()`. Without a timestamp it is the Unix epoch. -/
def ProtoEvent.time (e : ProtoEvent) : Int := e.timestamp.getD 0

/-- The comparison of `Get`. -/
def historyLess (ei ej : ProtoEvent) : Bool :=
  if 0 < ei.eventID ∧ 0 < ej.eventID then decide (ei.eventID < ej.eventID)
  else if ei.time ≠ ej.time then decide (ei.time < ej.time)
  else decide (ei.eventID < ej.eventID)

/-- `sort.SliceStable` of the events. -/
def sortHistory (events : List ProtoEvent) : List ProtoEvent := sortStable historyLess events

/-- `Get`, of what the sidecar answered. -/
def sidecarExecution (cd : Codec) (appID instanceID : Str) (events : List ProtoEvent)
    (customStatus : Option Str) : Execution :=
  decodeExecution cd appID instanceID (sortHistory events) (customStatus.getD [])

theorem historyLess_iff (a b : ProtoEvent) :
    historyLess a b = true ↔
      (0 < a.eventID ∧ 0 < b.eventID ∧ a.eventID < b.eventID) ∨
        (¬ (0 < a.eventID ∧ 0 < b.eventID) ∧
          (a.time < b.time ∨ (a.time = b.time ∧ a.eventID < b.eventID))) := by
  unfold historyLess
  split_ifs with hid htime
  · simp [hid]
  · rw [decide_eq_true_eq]
    omega
  · rw [decide_eq_true_eq]
    omega

theorem historyLess_eq_false_iff (a b : ProtoEvent) :
    historyLess a b = false ↔
      ¬ ((0 < a.eventID ∧ 0 < b.eventID ∧ a.eventID < b.eventID) ∨
        (¬ (0 < a.eventID ∧ 0 < b.eventID) ∧
          (a.time < b.time ∨ (a.time = b.time ∧ a.eventID < b.eventID)))) := by
  rw [← historyLess_iff, Bool.not_eq_true]

/-! ## 2. When it is an order -/

/-- Some event without a positive id lies, in time, behind one event and not behind another whose
    positive id is no greater. -/
def Straddled (events : List ProtoEvent) : Prop :=
  ∃ p ∈ events, ∃ p' ∈ events, ∃ n ∈ events, 0 < p.eventID ∧ p.eventID ≤ p'.eventID ∧
    n.eventID ≤ 0 ∧ p'.time < n.time ∧ n.time ≤ p.time

instance (events : List ProtoEvent) : Decidable (Straddled events) :=
  inferInstanceAs (Decidable (∃ p ∈ events, ∃ p' ∈ events, ∃ n ∈ events, _))

/-- Three events around such an event are in a circle. -/
theorem not_strictWeakOn_of_straddled {events : List ProtoEvent} (h : Straddled events) :
    ¬ StrictWeakOn historyLess events := by
  obtain ⟨p, hp, p', hp', n, hn, hpos, hle, hneg, hlt, hge⟩ := h
  intro hw
  have h1 : historyLess p' n = true := (historyLess_iff _ _).mpr (.inr (by omega))
  have h2 : historyLess n p = true := (historyLess_iff _ _).mpr (.inr (by omega))
  have h3 := hw.trans p' hp' n hn p hp h1 h2
  rw [historyLess_iff] at h3
  omega

theorem strictWeakOn_of_not_straddled {events : List ProtoEvent} (h : ¬ Straddled events) :
    StrictWeakOn historyLess events := by
  have hno : ∀ p ∈ events, ∀ p' ∈ events, ∀ n ∈ events, 0 < p.eventID → p.eventID ≤ p'.eventID →
      n.eventID ≤ 0 → p'.time < n.time → p.time < n.time := by
    intro p hp p' hp' n hn hpos hle hneg hlt
    by_contra hge
    exact h ⟨p, hp, p', hp', n, hn, hpos, hle, hneg, hlt, not_lt.mp hge⟩
  refine ⟨fun a _ => ?_, fun a ha b hb c hc hab hbc => ?_, fun a ha b hb c hc hab hbc => ?_⟩
  · rw [historyLess_eq_false_iff]
    omega
  · -- the one of the three without an id says where it stands
    have h1 := hno a ha b hb c hc
    have h2 := hno c hc a ha b hb
    have h3 := hno b hb c hc a ha
    rw [historyLess_iff] at hab hbc ⊢
    rcases hab with ⟨ha0, hb0, hlt⟩ | ⟨hid, ht⟩
    · rcases hbc with ⟨-, hc0, hlt'⟩ | ⟨hid', ht'⟩
      · exact .inl ⟨ha0, hc0, hlt.trans hlt'⟩
      · omega
    · omega
  · -- a tie is one of id, or one of time and id
    simp only [Tie, historyLess_eq_false_iff] at hab hbc ⊢
    omega

/-- What sorting a history promises: the comparison is a strict weak order on its events, the
    result is in order at every two places, and it depends on the order in which the events came
    up to ties only. -/
structure HistoryOrdered (events : List ProtoEvent) : Prop where
  weak : StrictWeakOn historyLess events
  sorted : (sortHistory events).Pairwise fun a b => historyLess b a = false
  order_free : ∀ events', events.Perm events' →
    List.Forall₂ (Tie historyLess) (sortHistory events) (sortHistory events')

/-- **When the history is ordered.** Exactly if no event without a positive `EventId` lies in time
    between two events with one whose times are the other way round than their ids. -/
theorem historyOrder_iff (events : List ProtoEvent) :
    HistoryOrdered events ↔ ¬ Straddled events := by
  constructor
  · exact fun h hs => not_strictWeakOn_of_straddled hs h.weak
  · intro h
    have hw := strictWeakOn_of_not_straddled h
    exact ⟨hw, hw.pairwise_sortStable, fun events' hp => hw.forall₂_sortStable hp⟩

/-- Two events with ids and one without, at three times. -/
def circle : List ProtoEvent :=
  [⟨2, some 10, .taskScheduled [] none⟩, ⟨-1, some 20, .orchestratorStarted⟩,
    ⟨1, some 30, .timerCreated⟩]

/-- On them the comparison goes in a circle, and no order of the three is in order. -/
theorem circle_not_ordered :
    ¬ HistoryOrdered circle ∧
      ∀ events' : List ProtoEvent, events'.Perm circle → ¬ events'.Pairwise fun a b => historyLess b a = false := by
  have hall : ∀ events' ∈ circle.permutations',
      ¬ events'.Pairwise fun a b => historyLess b a = false := by decide
  exact ⟨fun h => not_strictWeakOn_of_straddled (by decide) h.weak,
    fun events' hp => hall events' (List.mem_permutations'.mpr hp)⟩

end DevDashboard.Workflow
