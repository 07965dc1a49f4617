/-
  File:      DevDashboard/Lib/Digits.lean
  Subject:   ZERO-PADDED NUMBERS.

  A number padded with zeros to a fixed width sorts, as a text, where the number does, as long as
  the width is enough for it (`padDigits_lt`).
-/
import Mathlib.Algebra.Order.Ring.Int
import Mathlib.Data.List.Lex
import Mathlib.Data.Char

namespace DevDashboard.Lib.Digits

/-- The decimal digits of `i`, padded with zeros to at least `w`. -/
def padDigits (w i : Nat) : List Char :=
  let s := Nat.toDigits 10 i
  if s.length < w then List.replicate (w - s.length) '0' ++ s else s

theorem isDigit_of_mem_padDigits {w i : Nat} {c : Char} (h : c ∈ padDigits w i) :
    c.isDigit = true := by
  have hd : c ∈ Nat.toDigits 10 i → c.isDigit = true :=
    fun hm => Nat.isDigit_of_mem_toDigits (by decide) (by decide) hm
  simp only [padDigits] at h
  split at h
  · rcases List.mem_append.mp h with h | h
    · rw [List.eq_of_mem_replicate h]
      decide
    · exact hd h
  · exact hd h

theorem length_padDigits {w i : Nat} (hw : 0 < w) (h : i < 10 ^ w) : (padDigits w i).length = w := by
  have := (Nat.length_toDigits_le_iff (b := 10) (n := i) (by decide) hw).mpr h
  simp only [padDigits]
  split
  · simp only [List.length_append, List.length_replicate]
    omega
  · omega

theorem ofDigitChars_padDigits (w i : Nat) : Nat.ofDigitChars 10 (padDigits w i) 0 = i := by
  simp only [padDigits]
  split
  · rw [Nat.ofDigitChars_append, Nat.ofDigitChars_replicate_zero]
    simp
  · simp

theorem ofDigitChars_lt {l : List Char} (h : ∀ c ∈ l, c.isDigit = true) :
    Nat.ofDigitChars 10 l 0 < 10 ^ l.length := by
  induction l with
  | nil => simp
  | cons c l ih =>
      have hc := Char.isDigit_iff_toNat.mp (h c List.mem_cons_self)
      have ih := ih fun d hd => h d (List.mem_cons_of_mem c hd)
      rw [Nat.ofDigitChars_cons, Nat.ofDigitChars_eq_ofDigitChars_zero, List.length_cons,
        Nat.pow_succ]
      have h0 : '0'.toNat = 48 := rfl
      have h9 : '9'.toNat = 57 := rfl
      have hm : 10 ^ l.length * (10 * 0 + (c.toNat - '0'.toNat)) ≤ 10 ^ l.length * 9 :=
        Nat.mul_le_mul_left _ (by omega)
      omega

/-- Digit texts of one length sort as their numbers do. -/
theorem lt_of_ofDigitChars_lt {a b : List Char} (hl : a.length = b.length)
    (ha : ∀ c ∈ a, c.isDigit = true) (hb : ∀ c ∈ b, c.isDigit = true)
    (h : Nat.ofDigitChars 10 a 0 < Nat.ofDigitChars 10 b 0) : a < b := by
  induction a generalizing b with
  | nil =>
      obtain rfl := List.length_eq_zero_iff.mp hl.symm
      exact absurd h (lt_irrefl _)
  | cons x a ih =>
      cases b with
      | nil => cases hl
      | cons y b =>
          have hx := Char.isDigit_iff_toNat.mp (ha x List.mem_cons_self)
          have hy := Char.isDigit_iff_toNat.mp (hb y List.mem_cons_self)
          have ha' : ∀ c ∈ a, c.isDigit = true := fun c hc => ha c (List.mem_cons_of_mem x hc)
          have hb' : ∀ c ∈ b, c.isDigit = true := fun c hc => hb c (List.mem_cons_of_mem y hc)
          have hlen : a.length = b.length := Nat.succ.inj hl
          have hva := ofDigitChars_lt ha'
          have hvb := ofDigitChars_lt hb'
          rw [Nat.ofDigitChars_cons, Nat.ofDigitChars_cons,
            Nat.ofDigitChars_eq_ofDigitChars_zero (l := a),
            Nat.ofDigitChars_eq_ofDigitChars_zero (l := b), hlen] at h
          rw [hlen] at hva
          rw [List.cons_lt_cons_iff]
          rcases lt_trichotomy x.toNat y.toNat with hxy | hxy | hxy
          · exact .inl hxy
          · obtain rfl : x = y := Char.toNat_inj.mp hxy
            exact .inr ⟨rfl, ih hlen ha' hb' (by omega)⟩
          · -- a greater first digit outweighs everything behind it
            have hm : 10 ^ b.length * (10 * 0 + (y.toNat - '0'.toNat)) + 10 ^ b.length ≤
                10 ^ b.length * (10 * 0 + (x.toNat - '0'.toNat)) := by
              rw [← Nat.mul_succ]
              exact Nat.mul_le_mul_left _ (by omega)
            omega

/-- **Padded numbers sort by their value.** -/
theorem padDigits_lt {w i j : Nat} (hw : 0 < w) (h : i < j) (hj : j < 10 ^ w) :
    padDigits w i < padDigits w j := by
  refine lt_of_ofDigitChars_lt ?_ ?_ ?_ ?_
  · rw [length_padDigits hw (h.trans hj), length_padDigits hw hj]
  · exact fun c hc => isDigit_of_mem_padDigits hc
  · exact fun c hc => isDigit_of_mem_padDigits hc
  · rwa [ofDigitChars_padDigits, ofDigitChars_padDigits]

end DevDashboard.Lib.Digits
