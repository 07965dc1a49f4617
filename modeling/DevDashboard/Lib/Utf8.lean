/-
  File:      DevDashboard/Lib/Utf8.lean
  Subject:   THE BYTES OF A GO STRING AND ITS RUNES.

  A Go string is a sequence of bytes, UTF-8 or not. A `range` over it decodes rune after rune, and
  a byte that begins no rune counts as U+FFFD.

  * `runes_utf8` -- the runes of an encoded text are the text;
  * `utf8_injective` -- two texts with the same bytes are the same;
  * `toNat_of_mem_utf8EncodeChar` -- the bytes below 0x80 are the ASCII characters.
-/
import DevDashboard.Lib.Url

namespace DevDashboard.Lib

open Url (Octets utf8)

/-- `utf8.RuneError`. -/
def runeError : Char := '\uFFFD'

/-- The runes of the first bytes: one at a time, `n` of them at most. -/
def runesFrom : Nat → Octets → Str
  | 0, _ => []
  | _ + 1, [] => []
  | n + 1, b :: bs =>
      match (b :: bs).toByteArray.utf8DecodeChar? 0 with
      | some c => c :: runesFrom n ((b :: bs).drop c.utf8Size)
      | none => runeError :: runesFrom n bs

/-- The runes of a Go string. -/
def runes (s : Octets) : Str := runesFrom s.length s

theorem utf8_cons (c : Char) (s : Str) : utf8 (c :: s) = String.utf8EncodeChar c ++ utf8 s := rfl

theorem runesFrom_utf8 {n : Nat} (s : Str) (h : s.length ≤ n) : runesFrom n (utf8 s) = s := by
  induction s generalizing n with
  | nil => cases n <;> rfl
  | cons c s ih =>
      cases n with
      | zero => cases h
      | succ n =>
          have hdec : (utf8 (c :: s)).toByteArray.utf8DecodeChar? 0 = some c := by
            rw [utf8_cons, List.toByteArray_append, ByteArray.utf8DecodeChar?_utf8EncodeChar_append]
          have hdrop : (utf8 (c :: s)).drop c.utf8Size = utf8 s := by
            rw [utf8_cons, ← String.length_utf8EncodeChar c, List.drop_left]
          have hpos : 0 < (utf8 (c :: s)).length := by
            have := c.utf8Size_pos
            rw [Url.length_utf8_cons]
            omega
          obtain ⟨b, bs, hb⟩ := List.exists_cons_of_length_pos hpos
          rw [hb] at hdec hdrop ⊢
          rw [runesFrom, hdec]
          simp only [hdrop]
          rw [ih (Nat.le_of_succ_le_succ h)]

/-- Every rune takes a byte at least. -/
theorem length_le_utf8 (s : Str) : s.length ≤ (utf8 s).length := by
  induction s with
  | nil => exact Nat.le_refl 0
  | cons c s ih =>
      have := c.utf8Size_pos
      rw [Url.length_utf8_cons, List.length_cons]
      omega

/-- **The runes of an encoded text are the text.** -/
theorem runes_utf8 (s : Str) : runes (utf8 s) = s := runesFrom_utf8 s (length_le_utf8 s)

theorem utf8_injective : Function.Injective utf8 :=
  Function.LeftInverse.injective runes_utf8

/-- The bytes of a character: itself if it is ASCII, and bytes from 0x80 on otherwise. -/
theorem toNat_of_mem_utf8EncodeChar {c : Char} {b : UInt8} (h : b ∈ String.utf8EncodeChar c) :
    c.toNat < 0x80 ∧ b.toNat = c.toNat ∨ 0x80 ≤ c.toNat ∧ 0x80 ≤ b.toNat := by
  have hv : c.val.toNat = c.toNat := rfl
  have hlt := c.val.toNat_lt
  unfold String.utf8EncodeChar at h
  dsimp only at h
  split_ifs at h <;> simp only [List.mem_cons, List.not_mem_nil, or_false] at h
  · subst h
    left
    rw [UInt8.toNat_ofNat']
    omega
  all_goals
    right
    refine ⟨by omega, ?_⟩
    rcases h with rfl | rfl | rfl | rfl <;> rw [UInt8.toNat_ofNat'] <;> omega
end DevDashboard.Lib
