/-
  File:      DevDashboard/Lib/Json.lean
  Subject:   JSON VALUES AND A LOSSLESS TEXT FOR THEM.

  A number is a rational: the finite numbers of JavaScript are rationals, and JSON has no others.
  `print` writes a value without blanks, as `JSON.stringify` does; a number that is no integer is
  written as a fraction, where JavaScript has a decimal. `parse` reads the text back.

  * `readNat_append`, `readNumber_print`, `readString_escape` -- the parts of a value;
  * `readValue_print` -- a value is read off the front of a text, whatever follows it;
  * `parse_print` -- **the round trip**: the text of a value reads as the value;
  * `length_printTail_replicate` -- how long the text of a repeated item is.
-/
import DevDashboard.Lib.Str
import Mathlib.Algebra.Ring.Rat

namespace DevDashboard.Lib

/-- A JSON value. -/
inductive Json where
  | null
  | bool (b : Bool)
  | num (x : ℚ)
  | str (s : Str)
  | arr (items : List Json)
  | obj (fields : List (Str × Json))

namespace Json

/-- `v[name]`, where `v` is an object that has the property. -/
def field? (name : Str) : Json → Option Json
  | .obj fields => fields.lookup name
  | _ => none

/-! ## 1. The text of a value -/

def printNat (n : Nat) : Str := Nat.toDigits 10 n

def printInt (z : Int) : Str := if z < 0 then '-' :: printNat z.natAbs else printNat z.natAbs

def printNumber (x : ℚ) : Str :=
  printInt x.num ++ if x.den = 1 then [] else '/' :: printNat x.den

def hexDigit (n : Nat) : Char := Nat.digitChar n

/-- One character inside quotes. -/
def escape (c : Char) : Str :=
  if c = '"' ∨ c = '\\' then ['\\', c]
  else if c.toNat < 32 then ['\\', 'u', '0', '0', hexDigit (c.toNat / 16), hexDigit (c.toNat % 16)]
  else [c]

def printString (s : Str) : Str := '"' :: s.flatMap escape ++ ['"']

mutual

def print : Json → Str
  | .null => ['n', 'u', 'l', 'l']
  | .bool true => ['t', 'r', 'u', 'e']
  | .bool false => ['f', 'a', 'l', 's', 'e']
  | .num x => printNumber x
  | .str s => printString s
  | .arr [] => ['[', ']']
  | .arr (v :: vs) => '[' :: print v ++ printTail vs
  | .obj [] => ['{', '}']
  | .obj ((k, v) :: fs) => '{' :: printString k ++ ':' :: print v ++ printFields fs

/-- The items after the first, and the bracket. -/
def printTail : List Json → Str
  | [] => [']']
  | v :: vs => ',' :: print v ++ printTail vs

/-- The properties after the first, and the brace. -/
def printFields : List (Str × Json) → Str
  | [] => ['}']
  | (k, v) :: fs => ',' :: printString k ++ ':' :: print v ++ printFields fs

end

/-! ## 2. Reading it back -/

/-- A nonempty run of digits. -/
def readNat (s : Str) : Option (Nat × Str) :=
  if s.takeWhile Char.isDigit = [] then none
  else some (Nat.ofDigitChars 10 (s.takeWhile Char.isDigit) 0, s.dropWhile Char.isDigit)

def readInt (s : Str) : Option (Int × Str) :=
  if Str.hasPrefix s ['-'] then (readNat (s.drop 1)).map fun p => (-p.1, p.2)
  else (readNat s).map fun p => (p.1, p.2)

def readNumber (s : Str) : Option (ℚ × Str) := do
  let (z, s) ← readInt s
  if Str.hasPrefix s ['/'] then
    let (d, s) ← readNat (s.drop 1)
    some (z / d, s)
  else some (z, s)

/-- The value of a hexadecimal digit. -/
def hexValue (c : Char) : Option Nat := (List.range 16).find? fun n => decide (hexDigit n = c)

/-- The characters up to the closing quote. -/
def readString : Str → Option (Str × Str)
  | [] => none
  | '"' :: s => some ([], s)
  | '\\' :: 'u' :: '0' :: '0' :: a :: b :: s => do
      let x ← hexValue a
      let y ← hexValue b
      let (t, s) ← readString s
      some (Char.ofNat (16 * x + y) :: t, s)
  | '\\' :: c :: s => do
      let (t, s) ← readString s
      some (c :: t, s)
  | c :: s => do
      let (t, s) ← readString s
      some (c :: t, s)

/-- The text after an expected beginning. -/
def expect (p s : Str) : Option Str := if Str.hasPrefix s p then some (s.drop p.length) else none

/-- A name, its colon and a quote before it: what begins a property. -/
def readName (s : Str) : Option (Str × Str) := do
  let s ← expect ['"'] s
  let (k, s) ← readString s
  let s ← expect [':'] s
  some (k, s)

mutual

/-- A value off the front of a text; `n` bounds the depth. -/
def readValue : Nat → Str → Option (Json × Str)
  | 0, _ => none
  | n + 1, s =>
      match s.head? with
      | some 'n' => (expect ['n', 'u', 'l', 'l'] s).map fun s => (.null, s)
      | some 't' => (expect ['t', 'r', 'u', 'e'] s).map fun s => (.bool true, s)
      | some 'f' => (expect ['f', 'a', 'l', 's', 'e'] s).map fun s => (.bool false, s)
      | some '"' => (readString (s.drop 1)).map fun p => (.str p.1, p.2)
      | some '[' =>
          if Str.hasPrefix s ['[', ']'] then some (.arr [], s.drop 2)
          else do
            let (v, s) ← readValue n (s.drop 1)
            let (vs, s) ← readTail n s
            some (.arr (v :: vs), s)
      | some '{' =>
          if Str.hasPrefix s ['{', '}'] then some (.obj [], s.drop 2)
          else do
            let (k, s) ← readName (s.drop 1)
            let (v, s) ← readValue n s
            let (fs, s) ← readFields n s
            some (.obj ((k, v) :: fs), s)
      | _ => (readNumber s).map fun p => (.num p.1, p.2)

def readTail : Nat → Str → Option (List Json × Str)
  | 0, _ => none
  | n + 1, s =>
      if Str.hasPrefix s [']'] then some ([], s.drop 1)
      else do
        let s ← expect [','] s
        let (v, s) ← readValue n s
        let (vs, s) ← readTail n s
        some (v :: vs, s)

def readFields : Nat → Str → Option (List (Str × Json) × Str)
  | 0, _ => none
  | n + 1, s =>
      if Str.hasPrefix s ['}'] then some ([], s.drop 1)
      else do
        let s ← expect [','] s
        let (k, s) ← readName s
        let (v, s) ← readValue n s
        let (fs, s) ← readFields n s
        some ((k, v) :: fs, s)

end

/-- A text that is one value. -/
def parse (s : Str) : Option Json := do
  let (v, s) ← readValue (s.length + 1) s
  if s = [] then some v else none

/-! ## 3. The parts of a value -/

variable {r : Str}

theorem expect_append (p s : Str) : expect p (p ++ s) = some s := by
  simp [expect]

/-- No digit follows: a number that ends here is read to its end. -/
def NoDigit (r : Str) : Prop := ∀ c ∈ r.head?, c.isDigit = false

theorem noDigit_cons {c : Char} (h : c.isDigit = false) (s : Str) : NoDigit (c :: s) := by
  intro d hd
  rw [List.head?_cons, Option.mem_some_iff] at hd
  rwa [← hd]

theorem takeWhile_dropWhile_append {p : Char → Bool} {ds : Str} (hds : ∀ c ∈ ds, p c = true)
    (hr : ∀ c ∈ r.head?, p c = false) :
    (ds ++ r).takeWhile p = ds ∧ (ds ++ r).dropWhile p = r := by
  have hr' : r.takeWhile p = [] ∧ r.dropWhile p = r := by
    cases r with
    | nil => exact ⟨rfl, rfl⟩
    | cons c r =>
        have hc := hr c (by simp)
        simp [hc]
  rw [List.takeWhile_append_of_pos hds, List.dropWhile_append_of_pos hds, hr'.1, hr'.2]
  exact ⟨List.append_nil ds, rfl⟩

theorem isDigit_of_mem_printNat {n : Nat} {c : Char} (h : c ∈ printNat n) : c.isDigit = true :=
  Nat.isDigit_of_mem_toDigits (by decide) (by decide) h

theorem readNat_append (n : Nat) (hr : NoDigit r) : readNat (printNat n ++ r) = some (n, r) := by
  have hds : ∀ c ∈ printNat n, c.isDigit = true := fun c hc => isDigit_of_mem_printNat hc
  obtain ⟨ht, hd⟩ := takeWhile_dropWhile_append hds hr
  have hne : printNat n ≠ [] := Nat.toDigits_ne_nil
  rw [readNat, ht, hd, if_neg hne, printNat, Nat.ofDigitChars_ten_toDigits]

theorem hasPrefix_cons_of_ne {c d : Char} (h : c ≠ d) (p s : Str) :
    Str.hasPrefix (c :: s) (d :: p) = false := by
  rw [← Bool.not_eq_true, Str.hasPrefix_iff, List.cons_prefix_cons]
  exact fun hp => h hp.1.symm

theorem hasPrefix_cons_self (c : Char) (s : Str) : Str.hasPrefix (c :: s) [c] = true := by
  rw [Str.hasPrefix_iff]
  exact ⟨s, rfl⟩

/-- A number without a sign begins with a digit. -/
theorem printNat_eq_cons (n : Nat) : ∃ c t, printNat n = c :: t ∧ c.isDigit = true := by
  obtain ⟨c, t, h⟩ := List.exists_cons_of_ne_nil (Nat.toDigits_ne_nil (n := n) (b := 10))
  exact ⟨c, t, h, isDigit_of_mem_printNat (h ▸ List.mem_cons_self)⟩

theorem readInt_append (z : Int) (hr : NoDigit r) : readInt (printInt z ++ r) = some (z, r) := by
  unfold readInt printInt
  split <;> rename_i hz
  · rw [List.cons_append, if_pos (hasPrefix_cons_self _ _), List.drop_one, List.tail_cons,
      readNat_append _ hr, Option.map_some]
    congr
    omega
  · obtain ⟨c, t, h, hc⟩ := printNat_eq_cons z.natAbs
    have hminus : Str.hasPrefix (printNat z.natAbs ++ r) ['-'] = false := by
      rw [h, List.cons_append]
      exact hasPrefix_cons_of_ne (by rintro rfl; exact absurd hc (by decide)) _ _
    rw [hminus, if_neg Bool.false_ne_true, readNat_append _ hr, Option.map_some]
    congr
    omega

/-- What may follow a value: no digit and no fraction bar. -/
def Ends (r : Str) : Prop := NoDigit r ∧ Str.hasPrefix r ['/'] = false

theorem readNumber_print (x : ℚ) (hr : Ends r) :
    readNumber (printNumber x ++ r) = some (x, r) := by
  unfold readNumber printNumber
  split <;> rename_i hden
  · rw [List.append_nil, readInt_append _ hr.1]
    simp only [Option.bind_eq_bind, Option.bind_some, hr.2, Bool.false_eq_true, if_false]
    rw [Rat.coe_int_num_of_den_eq_one hden]
  · rw [List.append_assoc, List.cons_append, readInt_append _ (noDigit_cons (by decide) _)]
    simp only [Option.bind_eq_bind, Option.bind_some, hasPrefix_cons_self, if_true, List.drop_one,
      List.tail_cons, readNat_append _ hr.1]
    rw [Rat.num_div_den]

theorem hexValue_hexDigit {n : Nat} (h : n < 16) : hexValue (hexDigit n) = some n := by
  have hall : ∀ n < 16, hexValue (hexDigit n) = some n := by decide
  exact hall n h

/-- **One character inside quotes** reads as itself. -/
theorem readString_escape (c : Char) (s : Str) :
    readString (escape c ++ s) = (readString s).map fun p => (c :: p.1, p.2) := by
  unfold escape
  split <;> rename_i h
  · rcases h with rfl | rfl
    · cases hs : readString s <;> simp [readString, hs]
    · cases hs : readString s <;> simp [readString, hs]
  · split <;> rename_i h32
    · have hx := hexValue_hexDigit (n := c.toNat / 16) (by omega)
      have hy := hexValue_hexDigit (n := c.toNat % 16) (by omega)
      have hc : Char.ofNat (16 * (c.toNat / 16) + c.toNat % 16) = c := by
        rw [Nat.div_add_mod, Char.ofNat_toNat]
      cases hs : readString s <;> simp [readString, hx, hy, hc, hs]
    · rw [not_or] at h
      rw [List.singleton_append, readString.eq_5]
      · cases readString s <;> rfl
      all_goals simp [h.1, h.2]

theorem readString_print (t r : Str) :
    readString (t.flatMap escape ++ '"' :: r) = some (t, r) := by
  induction t with
  | nil => simp [readString]
  | cons c t ih => rw [List.flatMap_cons, List.append_assoc, readString_escape, ih]; rfl

theorem readName_print (k r : Str) : readName (printString k ++ ':' :: r) = some (k, r) := by
  have hq := expect_append ['"'] (k.flatMap escape ++ '"' :: ':' :: r)
  have hc := expect_append [':'] r
  simp only [List.cons_append, List.nil_append] at hq hc
  simp only [readName, printString, List.cons_append, List.append_assoc, List.nil_append, hq,
    Option.bind_eq_bind, Option.bind_some, readString_print, hc]

/-! ## 4. Whole values -/

theorem ends_cons {c : Char} (hd : c.isDigit = false) (hc : c ≠ '/') (s : Str) : Ends (c :: s) :=
  ⟨noDigit_cons hd s, hasPrefix_cons_of_ne hc _ _⟩

theorem ends_printTail (vs : List Json) (r : Str) : Ends (printTail vs ++ r) := by
  cases vs <;> exact ends_cons (by decide) (by decide) _

theorem ends_printFields (fs : List (Str × Json)) (r : Str) : Ends (printFields fs ++ r) := by
  rcases fs with _ | ⟨⟨k, v⟩, fs⟩ <;> exact ends_cons (by decide) (by decide) _

/-- The text of a value begins with none of these. -/
theorem print_eq_cons (v : Json) : ∃ c t, print v = c :: t ∧ c ≠ ']' := by
  cases v with
  | null => exact ⟨_, _, rfl, by decide⟩
  | bool b => cases b <;> exact ⟨_, _, rfl, by decide⟩
  | num x =>
      obtain ⟨c, t, h, hc⟩ := printNat_eq_cons x.num.natAbs
      rw [print, printNumber, printInt]
      split
      · exact ⟨_, _, rfl, by decide⟩
      · rw [h]
        exact ⟨_, _, rfl, by rintro rfl; exact absurd hc (by decide)⟩
  | str s => exact ⟨_, _, rfl, by decide⟩
  | arr vs => cases vs <;> exact ⟨_, _, rfl, by decide⟩
  | obj fs => rcases fs with _ | ⟨⟨k, v⟩, fs⟩ <;> exact ⟨_, _, rfl, by decide⟩

/-- The first character of a number begins no other value. -/
theorem printNumber_eq_cons (x : ℚ) (r : Str) : ∃ c t, printNumber x ++ r = c :: t ∧
    (c = '-' ∨ c.isDigit = true) := by
  obtain ⟨c, t, h, hc⟩ := printNat_eq_cons x.num.natAbs
  rw [printNumber, printInt]
  split
  · exact ⟨_, _, rfl, .inl rfl⟩
  · rw [h]
    exact ⟨_, _, rfl, .inr hc⟩

theorem readValue_number (n : Nat) (x : ℚ) (hr : Ends r) :
    readValue (n + 1) (printNumber x ++ r) = some (.num x, r) := by
  obtain ⟨c, t, h, hc⟩ := printNumber_eq_cons x r
  have hread := readNumber_print x hr
  rw [h] at hread ⊢
  unfold readValue
  split <;> rename_i heq <;> rw [List.head?_cons, Option.some.injEq] at heq
  all_goals first
    | (subst heq; rcases hc with hc | hc <;> exact absurd hc (by decide))
    | rw [hread]
      rfl

theorem readValue_str (n : Nat) (t r : Str) :
    readValue (n + 1) (printString t ++ r) = some (.str t, r) := by
  have h := readString_print t r
  rw [printString, List.cons_append, List.cons_append, List.append_assoc,
    List.singleton_append]
  show (readString (t.flatMap escape ++ '"' :: r)).map _ = _
  rw [h]
  rfl

mutual

/-- **A value is read off the front of a text**, whatever follows it. -/
theorem readValue_print : ∀ (v : Json) {n : Nat} {r : Str}, (print v).length ≤ n → Ends r →
    readValue n (print v ++ r) = some (v, r)
  | v, 0, r, hn, _ => by
      obtain ⟨c, t, h, _⟩ := print_eq_cons v
      rw [h] at hn
      cases hn
  | .null, n + 1, r, _, _ => rfl
  | .bool true, n + 1, r, _, _ => rfl
  | .bool false, n + 1, r, _, _ => rfl
  | .num x, n + 1, r, _, hr => readValue_number n x hr
  | .str t, n + 1, r, _, _ => readValue_str n t r
  | .arr [], n + 1, r, _, _ => rfl
  | .arr (v :: vs), n + 1, r, hn, hr => by
      rw [print, List.length_append, List.length_cons] at hn
      obtain ⟨c, t, hv, hc⟩ := print_eq_cons v
      have hopen : Str.hasPrefix ('[' :: (print v ++ (printTail vs ++ r))) ['[', ']'] = false := by
        rw [← Bool.not_eq_true, Str.hasPrefix_iff, List.cons_prefix_cons, hv, List.cons_append,
          List.cons_prefix_cons]
        exact fun h => hc h.2.1.symm
      have h1 := readValue_print v (n := n) (by omega) (ends_printTail vs r)
      have h2 := readTail_print vs (n := n) (r := r) (by omega)
      rw [print, List.append_assoc, List.cons_append]
      simp only [readValue, List.head?_cons, hopen, Bool.false_eq_true, if_false, List.drop_one,
        List.tail_cons, h1, Option.bind_eq_bind, Option.bind_some, h2]
  | .obj [], n + 1, r, _, _ => rfl
  | .obj ((k, v) :: fs), n + 1, r, hn, hr => by
      rw [print, List.length_append, List.length_append, List.length_cons, List.length_cons] at hn
      have hopen : Str.hasPrefix ('{' :: (printString k ++ ':' :: (print v ++ (printFields fs ++ r))))
          ['{', '}'] = false := by
        rw [← Bool.not_eq_true, Str.hasPrefix_iff, List.cons_prefix_cons, printString,
          List.cons_append, List.cons_append, List.cons_prefix_cons]
        exact fun h => absurd h.2.1 (by decide)
      have h1 := readName_print k (print v ++ (printFields fs ++ r))
      have h2 := readValue_print v (n := n) (by omega) (ends_printFields fs r)
      have h3 := readFields_print fs (n := n) (r := r) (by omega)
      rw [print, List.append_assoc, List.append_assoc, List.cons_append, List.cons_append]
      simp only [readValue, List.head?_cons, hopen, Bool.false_eq_true, if_false, List.drop_one,
        List.tail_cons, h1, h2, h3, Option.bind_eq_bind, Option.bind_some]

theorem readTail_print : ∀ (vs : List Json) {n : Nat} {r : Str}, (printTail vs).length ≤ n →
    readTail n (printTail vs ++ r) = some (vs, r)
  | [], 0, r, hn => by cases hn
  | [], n + 1, r, _ => rfl
  | v :: vs, 0, r, hn => by
      rw [printTail] at hn
      cases hn
  | v :: vs, n + 1, r, hn => by
      rw [printTail, List.length_append, List.length_cons] at hn
      have h1 := readValue_print v (n := n) (by omega) (ends_printTail vs r)
      have h2 := readTail_print vs (n := n) (r := r) (by omega)
      have hc := expect_append [','] (print v ++ (printTail vs ++ r))
      rw [List.singleton_append] at hc
      rw [printTail, List.append_assoc, List.cons_append]
      simp only [readTail, hasPrefix_cons_of_ne (c := ',') (d := ']') (by decide),
        Bool.false_eq_true, if_false, hc, h1, h2, Option.bind_eq_bind, Option.bind_some]

theorem readFields_print : ∀ (fs : List (Str × Json)) {n : Nat} {r : Str},
    (printFields fs).length ≤ n → readFields n (printFields fs ++ r) = some (fs, r)
  | [], 0, r, hn => by cases hn
  | [], n + 1, r, _ => rfl
  | (k, v) :: fs, 0, r, hn => by
      rw [printFields] at hn
      cases hn
  | (k, v) :: fs, n + 1, r, hn => by
      rw [printFields, List.length_append, List.length_append, List.length_cons,
        List.length_cons] at hn
      have h1 := readName_print k (print v ++ (printFields fs ++ r))
      have h2 := readValue_print v (n := n) (by omega) (ends_printFields fs r)
      have h3 := readFields_print fs (n := n) (r := r) (by omega)
      have hc := expect_append [','] (printString k ++ ':' :: (print v ++ (printFields fs ++ r)))
      rw [List.singleton_append] at hc
      rw [printFields, List.append_assoc, List.append_assoc, List.cons_append, List.cons_append]
      simp only [readFields, hasPrefix_cons_of_ne (c := ',') (d := '}') (by decide),
        Bool.false_eq_true, if_false, hc, h1, h2, h3, Option.bind_eq_bind, Option.bind_some]

end

/-- **The round trip**: the text of a value reads as the value. -/
theorem parse_print (v : Json) : parse (print v) = some v := by
  have hend : Ends [] := ⟨fun c hc => absurd hc (by simp), rfl⟩
  have h := readValue_print v (n := (print v).length + 1) (Nat.le_succ _) hend
  rw [List.append_nil] at h
  rw [parse, h]
  rfl

/-- How long the text of an item repeated `n` times is. -/
theorem length_printTail_replicate (n : Nat) (v : Json) :
    (printTail (List.replicate n v)).length = n * ((print v).length + 1) + 1 := by
  induction n with
  | zero => simp [printTail]
  | succ n ih =>
      rw [List.replicate_succ, printTail, List.length_append, List.length_cons, ih, Nat.succ_mul]
      omega

end Json

end DevDashboard.Lib
