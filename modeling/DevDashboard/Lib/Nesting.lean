/-
  File:      DevDashboard/Lib/Nesting.lean
  Subject:   PAIRS MADE WITH A STACK.

  Places `0, 1, 2, …` are read one after the other. A place is opened, or it closes the one that
  was opened last, or it is neither. `Nested` says what the pairs made so far and the places still
  open are like; the three steps keep it.

  * `Nested.push`, `Nested.pop`, `Nested.skip` -- the steps.
-/
import Mathlib.Data.List.Pairwise
import Mathlib.Tactic.Basic

namespace DevDashboard.Lib

/-- The pairs made among the first `n` places, and the places that are open, the last one first. -/
structure Nested (n : Nat) (pairs : Nat → Nat → Prop) (opened : List Nat) : Prop where
  lt : ∀ i j, pairs i j → i < j ∧ j < n
  opened_lt : ∀ x ∈ opened, x < n
  last_first : opened.Pairwise fun x y => y < x
  free : ∀ x ∈ opened, ∀ j, ¬ pairs x j
  outside : ∀ x ∈ opened, ∀ i j, pairs i j → i < x → j < x
  uncrossed : ∀ i j k l, pairs i j → pairs k l → i < k → k < j → l < j

variable {n : Nat} {pairs : Nat → Nat → Prop} {opened : List Nat} {i : Nat}

theorem nested_nil : Nested 0 (fun _ _ => False) [] :=
  ⟨fun _ _ h => h.elim, fun _ h => absurd h List.not_mem_nil, .nil,
    fun _ h => absurd h List.not_mem_nil, fun _ h => absurd h List.not_mem_nil,
    fun _ _ _ _ h => h.elim⟩

namespace Nested

theorem skip (h : Nested n pairs opened) : Nested (n + 1) pairs opened :=
  ⟨fun i j hp => ⟨(h.lt i j hp).1, Nat.lt_succ_of_lt (h.lt i j hp).2⟩,
    fun x hx => Nat.lt_succ_of_lt (h.opened_lt x hx), h.last_first, h.free, h.outside, h.uncrossed⟩

theorem push (h : Nested n pairs opened) : Nested (n + 1) pairs (n :: opened) := by
  refine ⟨h.skip.lt, fun x hx => ?_, List.pairwise_cons.mpr ⟨h.opened_lt, h.last_first⟩,
    fun x hx j hp => ?_, fun x hx i j hp hix => ?_, h.uncrossed⟩
  · rcases List.mem_cons.mp hx with rfl | hx
    · exact Nat.lt_succ_self x
    · exact Nat.lt_succ_of_lt (h.opened_lt x hx)
  · rcases List.mem_cons.mp hx with rfl | hx
    · have := h.lt x j hp
      omega
    · exact h.free x hx j hp
  · rcases List.mem_cons.mp hx with rfl | hx
    · exact (h.lt i j hp).2
    · exact h.outside x hx i j hp hix

/-- **The place that was opened last is closed.** -/
theorem pop (h : Nested n pairs (i :: opened)) :
    Nested (n + 1) (fun a b => pairs a b ∨ a = i ∧ b = n) opened := by
  obtain ⟨hlast, hrest⟩ := List.pairwise_cons.mp h.last_first
  have hi := h.opened_lt i List.mem_cons_self
  refine ⟨?_, fun x hx => Nat.lt_succ_of_lt (h.opened_lt x (List.mem_cons_of_mem i hx)), hrest,
    ?_, ?_, ?_⟩
  · rintro a b (hp | ⟨rfl, rfl⟩)
    · exact h.skip.lt a b hp
    · exact ⟨hi, Nat.lt_succ_self b⟩
  · rintro x hx j (hp | ⟨rfl, -⟩)
    · exact h.free x (List.mem_cons_of_mem i hx) j hp
    · exact absurd (hlast x hx) (Nat.lt_irrefl x)
  · rintro x hx a b (hp | ⟨rfl, rfl⟩) hax
    · exact h.outside x (List.mem_cons_of_mem i hx) a b hp hax
    · exact absurd (hlast x hx) (Nat.lt_asymm hax)
  · rintro a b c d (hp | ⟨rfl, rfl⟩) (hq | ⟨rfl, rfl⟩) hac hcb
    · exact h.uncrossed a b c d hp hq hac hcb
    · have := h.outside c List.mem_cons_self a b hp hac
      omega
    · exact (h.lt c d hq).2
    · exact absurd hac (Nat.lt_irrefl _)

theorem congr {pairs' : Nat → Nat → Prop} (h : Nested n pairs opened)
    (he : ∀ a b, pairs' a b ↔ pairs a b) : Nested n pairs' opened := by
  obtain rfl : pairs' = pairs := funext fun a => funext fun b => propext (he a b)
  exact h

end Nested

end DevDashboard.Lib
