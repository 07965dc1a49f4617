/-
  File:      DevDashboard/Lib/Base64.lean
  Subject:   BASE64 (`btoa`, `atob`, and Go's `base64.StdEncoding`).

  Three bytes are four groups of six bits. `encode` pads the last four with `=`; `decode` is the
  forgiving decoder of the browser: it takes off the padding of a text whose length is a multiple
  of four, refuses what is left over by one, and drops the bits of the last group that make no
  byte.

  * `octets_sextets` -- **the bits of any bytes make these bytes**;
  * `decode_encode` -- the text of any bytes decodes to these bytes;
  * `length_sextets` -- how many groups the bytes take;
  * `decodeStd_encode` -- the strict decoder reads the text back, too;
  * `encode_take` -- whole quanta of the text are the text of the bytes they stand for.
-/
import DevDashboard.Lib.Url

namespace DevDashboard.Lib.Base64

open Url (Octets)

/-! ## 1. Groups of six bits -/

def sextets : Octets → List Nat
  | [] => []
  | [a] => [a.toNat / 4, a.toNat % 4 * 16]
  | [a, b] => [a.toNat / 4, a.toNat % 4 * 16 + b.toNat / 16, b.toNat % 16 * 4]
  | a :: b :: c :: bs =>
      a.toNat / 4 :: (a.toNat % 4 * 16 + b.toNat / 16) :: (b.toNat % 16 * 4 + c.toNat / 64) ::
        c.toNat % 64 :: sextets bs

/-- The bytes of the groups; a single group over makes none. -/
def octets : List Nat → Option Octets
  | [] => some []
  | [_] => none
  | [p, q] => some [UInt8.ofNat (p * 4 + q / 16)]
  | [p, q, r] => some [UInt8.ofNat (p * 4 + q / 16), UInt8.ofNat (q % 16 * 16 + r / 4)]
  | p :: q :: r :: s :: ps => do
      let bs ← octets ps
      some (UInt8.ofNat (p * 4 + q / 16) :: UInt8.ofNat (q % 16 * 16 + r / 4) ::
        UInt8.ofNat (r % 4 * 64 + s) :: bs)

theorem lt_of_mem_sextets {bs : Octets} {p : Nat} (h : p ∈ sextets bs) : p < 64 := by
  fun_induction sextets bs with
  | case1 => cases h
  | case2 a =>
      have ha := a.toNat_lt
      simp only [List.mem_cons, List.not_mem_nil, or_false] at h
      omega
  | case3 a b =>
      have ha := a.toNat_lt
      have hb := b.toNat_lt
      simp only [List.mem_cons, List.not_mem_nil, or_false] at h
      omega
  | case4 a b c bs ih =>
      have ha := a.toNat_lt
      have hb := b.toNat_lt
      have hc := c.toNat_lt
      simp only [List.mem_cons] at h
      rcases h with h | h | h | h | h
      · omega
      · omega
      · omega
      · omega
      · exact ih h

theorem ofNat_eq {a : UInt8} {n : Nat} (h : n = a.toNat) : UInt8.ofNat n = a := by
  rw [h, UInt8.ofNat_toNat]

/-- **The bits of any bytes make these bytes.** -/
theorem octets_sextets (bs : Octets) : octets (sextets bs) = some bs := by
  fun_induction sextets bs with
  | case1 => rfl
  | case2 a =>
      have ha := a.toNat_lt
      rw [octets, ofNat_eq (a := a) (by omega)]
  | case3 a b =>
      have ha := a.toNat_lt
      have hb := b.toNat_lt
      rw [octets, ofNat_eq (a := a) (by omega), ofNat_eq (a := b) (by omega)]
  | case4 a b c bs ih =>
      have ha := a.toNat_lt
      have hb := b.toNat_lt
      have hc := c.toNat_lt
      rw [octets, ih, ofNat_eq (a := a) (by omega), ofNat_eq (a := b) (by omega),
        ofNat_eq (a := c) (by omega)]
      rfl

theorem length_sextets (bs : Octets) : (sextets bs).length = (bs.length * 4 + 2) / 3 := by
  fun_induction sextets bs with
  | case1 => rfl
  | case2 => simp
  | case3 => simp
  | case4 a b c bs ih =>
      simp only [List.length_cons, ih]
      omega

/-! ## 2. Text -/

def digit (n : Nat) : Char :=
  if n < 26 then Char.ofNat ('A'.toNat + n)
  else if n < 52 then Char.ofNat ('a'.toNat + (n - 26))
  else if n < 62 then Char.ofNat ('0'.toNat + (n - 52))
  else if n = 62 then '+'
  else '/'

def digitValue (c : Char) : Option Nat := (List.range 64).find? fun n => decide (digit n = c)

theorem digitValue_digit {n : Nat} (h : n < 64) : digitValue (digit n) = some n := by
  have hall : ∀ n < 64, digitValue (digit n) = some n := by decide +kernel
  exact hall n h

/-- The `=` that fill up the last four characters. -/
def padding (n : Nat) : Str := List.replicate ((4 - n % 4) % 4) '='

/-- `btoa`, of the characters with these codes. -/
def encode (bs : Octets) : Str :=
  (sextets bs).map digit ++ padding (sextets bs).length

/-- A text whose length is a multiple of four, without its last `=`, two at most. -/
def unpad (s : Str) : Str :=
  if s.length % 4 ≠ 0 then s
  else if s.getLast? = some '=' then
    if s.dropLast.getLast? = some '=' then s.dropLast.dropLast else s.dropLast
  else s

/-- `atob`, the codes of the characters it returns, for a text without blanks. -/
def decode (s : Str) : Option Octets := do
  let ps ← (unpad s).mapM digitValue
  octets ps

theorem mapM_digitValue {ps : List Nat} (h : ∀ p ∈ ps, p < 64) :
    (ps.map digit).mapM digitValue = some ps := by
  induction ps with
  | nil => rfl
  | cons p ps ih =>
      rw [List.map_cons, List.mapM_cons, digitValue_digit (h p List.mem_cons_self),
        ih fun q hq => h q (List.mem_cons_of_mem p hq)]
      rfl

theorem digit_ne_pad {n : Nat} (h : n < 64) : digit n ≠ '=' := by
  have hall : ∀ n < 64, digit n ≠ '=' := by decide +kernel
  exact hall n h

theorem getLast?_digits {ps : List Nat} (h : ∀ p ∈ ps, p < 64) :
    (ps.map digit).getLast? ≠ some '=' := by
  intro hl
  obtain ⟨p, hp, he⟩ := List.mem_map.mp (List.mem_of_getLast? hl)
  exact digit_ne_pad (h p hp) he

/-- The padding of groups that no one is left over from is what the decoder takes off. -/
theorem unpad_append_padding {t : Str} (hlast : t.getLast? ≠ some '=')
    (h1 : t.length % 4 ≠ 1) : unpad (t ++ padding t.length) = t := by
  have hcases : t.length % 4 = 0 ∨ t.length % 4 = 2 ∨ t.length % 4 = 3 := by omega
  rcases hcases with h | h | h
  · have hp : padding t.length = [] := by rw [padding, h]; rfl
    rw [hp, List.append_nil, unpad, if_neg (by omega), if_neg hlast]
  · have hp : padding t.length = ['='] ++ ['='] := by rw [padding, h]; rfl
    have hlen : (t ++ (['='] ++ ['='])).length % 4 = 0 := by
      simp only [List.length_append, List.length_singleton]
      omega
    rw [hp, unpad, if_neg (by omega), ← List.append_assoc, List.getLast?_concat, if_pos rfl,
      List.dropLast_concat, List.getLast?_concat, if_pos rfl, List.dropLast_concat]
  · have hp : padding t.length = ['='] := by rw [padding, h]; rfl
    have hlen : (t ++ ['=']).length % 4 = 0 := by
      simp only [List.length_append, List.length_singleton]
      omega
    rw [hp, unpad, if_neg (by omega), List.getLast?_concat, if_pos rfl, List.dropLast_concat,
      if_neg hlast]

/-- **The text of any bytes decodes to these bytes.** -/
theorem decode_encode (bs : Octets) : decode (encode bs) = some bs := by
  have hlt : ∀ p ∈ sextets bs, p < 64 := fun p hp => lt_of_mem_sextets hp
  have hlen := length_sextets bs
  have hunpad := unpad_append_padding (getLast?_digits hlt)
    (by rw [List.length_map, hlen]; omega)
  rw [List.length_map] at hunpad
  rw [decode, encode, hunpad, mapM_digitValue hlt]
  exact octets_sextets bs

/-! ## 3. Quanta -/

/-- The bytes of a text of quanta: four characters each, the last one padded. -/
def quanta : Str → Option Octets
  | [] => some []
  | p :: q :: r :: s :: t => do
      let digits := if t = [] ∧ s = '=' then if r = '=' then [p, q] else [p, q, r] else [p, q, r, s]
      let ps ← digits.mapM digitValue
      let bs ← octets ps
      let rest ← quanta t
      some (bs ++ rest)
  | _ => none

/-- `base64.StdEncoding.DecodeString`. Line breaks are skipped. -/
def decodeStd (s : Str) : Option Octets := quanta (s.filter fun c => c ≠ '\n' && c ≠ '\r')

/-- Three bytes make a quantum of their own. -/
theorem encode_cons₃ (a b c : UInt8) (bs : Octets) :
    encode (a :: b :: c :: bs) =
      digit (a.toNat / 4) :: digit (a.toNat % 4 * 16 + b.toNat / 16) ::
        digit (b.toNat % 16 * 4 + c.toNat / 64) :: digit (c.toNat % 64) :: encode bs := by
  have hpad : padding (sextets (a :: b :: c :: bs)).length = padding (sextets bs).length := by
    simp only [padding, sextets, List.length_cons]
    congr 1
    omega
  rw [encode, hpad]
  rfl

theorem length_encode (bs : Octets) : (encode bs).length = (bs.length + 2) / 3 * 4 := by
  simp only [encode, padding, List.length_append, List.length_map, length_sextets,
    List.length_replicate]
  omega

theorem quanta_encode (bs : Octets) : quanta (encode bs) = some bs := by
  fun_induction sextets bs with
  | case1 => rfl
  | case2 a =>
      have hlt : ∀ p ∈ sextets [a], p < 64 := fun p hp => lt_of_mem_sextets hp
      have hdigits := mapM_digitValue hlt
      have hoctets := octets_sextets [a]
      show quanta [digit (a.toNat / 4), digit (a.toNat % 4 * 16), '=', '='] = _
      simp only [quanta, and_self, if_true]
      rw [show [digit (a.toNat / 4), digit (a.toNat % 4 * 16)] = (sextets [a]).map digit from rfl,
        hdigits]
      simp [hoctets]
  | case3 a b =>
      have hlt : ∀ p ∈ sextets [a, b], p < 64 := fun p hp => lt_of_mem_sextets hp
      have hdigits := mapM_digitValue hlt
      have hoctets := octets_sextets [a, b]
      have hlast : digit (b.toNat % 16 * 4) ≠ '=' := digit_ne_pad (by omega)
      show quanta [digit (a.toNat / 4), digit (a.toNat % 4 * 16 + b.toNat / 16),
        digit (b.toNat % 16 * 4), '='] = _
      simp only [quanta, and_self, if_true, if_neg hlast]
      rw [show [digit (a.toNat / 4), digit (a.toNat % 4 * 16 + b.toNat / 16),
        digit (b.toNat % 16 * 4)] = (sextets [a, b]).map digit from rfl, hdigits]
      simp [hoctets]
  | case4 a b c bs ih =>
      have hlt : ∀ p ∈ sextets [a, b, c], p < 64 := fun p hp => lt_of_mem_sextets hp
      have hdigits := mapM_digitValue hlt
      have hoctets := octets_sextets [a, b, c]
      have hlast : digit (c.toNat % 64) ≠ '=' := digit_ne_pad (by omega)
      rw [encode_cons₃, quanta, if_neg fun h => hlast h.2]
      rw [show [digit (a.toNat / 4), digit (a.toNat % 4 * 16 + b.toNat / 16),
        digit (b.toNat % 16 * 4 + c.toNat / 64), digit (c.toNat % 64)] =
          (sextets [a, b, c]).map digit from rfl, hdigits]
      simp [hoctets, ih]

theorem mem_encode {bs : Octets} {c : Char} (h : c ∈ encode bs) :
    c = '=' ∨ ∃ n < 64, c = digit n := by
  rcases List.mem_append.mp h with h | h
  · obtain ⟨n, hn, rfl⟩ := List.mem_map.mp h
    exact .inr ⟨n, lt_of_mem_sextets hn, rfl⟩
  · exact .inl (List.eq_of_mem_replicate h)

/-- The characters of the alphabet are no line breaks, and ASCII. -/
theorem plain_digit {n : Nat} (h : n < 64) :
    digit n ≠ '\n' ∧ digit n ≠ '\r' ∧ (digit n).toNat < 0x80 := by
  have hall : ∀ n < 64, digit n ≠ '\n' ∧ digit n ≠ '\r' ∧ (digit n).toNat < 0x80 := by
    decide +kernel
  exact hall n h

theorem plain_of_mem_encode {bs : Octets} {c : Char} (h : c ∈ encode bs) :
    c ≠ '\n' ∧ c ≠ '\r' ∧ c.toNat < 0x80 := by
  rcases mem_encode h with rfl | ⟨n, hn, rfl⟩
  · decide
  · exact plain_digit hn

/-- **The strict decoder reads the text of any bytes back.** -/
theorem decodeStd_encode (bs : Octets) : decodeStd (encode bs) = some bs := by
  have hfilter : (encode bs).filter (fun c => c ≠ '\n' && c ≠ '\r') = encode bs :=
    List.filter_eq_self.mpr fun c hc => by
      obtain ⟨h1, h2, -⟩ := plain_of_mem_encode hc
      simp [h1, h2]
  rw [decodeStd, hfilter, quanta_encode]

/-- **Whole quanta of the text are the text of the bytes they stand for.** -/
theorem encode_take {k : Nat} {bs : Octets} (h : 3 * k ≤ bs.length) :
    (encode bs).take (4 * k) = encode (bs.take (3 * k)) := by
  induction k generalizing bs with
  | zero =>
      simp only [Nat.mul_zero, List.take_zero]
      rfl
  | succ k ih =>
      match bs with
      | [] => simp at h
      | [_] => simp at h; omega
      | [_, _] => simp at h; omega
      | a :: b :: c :: bs =>
          simp only [List.length_cons] at h
          rw [encode_cons₃, show 4 * (k + 1) = 4 * k + 4 by omega,
            show 3 * (k + 1) = 3 * k + 3 by omega]
          simp only [List.take_succ_cons]
          rw [encode_cons₃, ih (by omega)]

end DevDashboard.Lib.Base64
