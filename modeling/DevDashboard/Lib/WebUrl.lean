/-
  File:      DevDashboard/Lib/WebUrl.lean
  Subject:   THE PATH OF A URL AS A BROWSER READS IT.

  The URL Standard reads a reference such as `/a/b?x#y` against the address of a page: blanks at
  the ends and tabs are dropped, the path ends at `?` or `#`, a backslash is a slash, dot segments
  are resolved, and what a path cannot hold is percent-encoded. References to another host (`//…`)
  are left out.

  * `percentDecode` -- the bytes a text stands for; an escape that is none stands for itself;
  * `percentDecode_encode` -- encoding keeps them;
  * `Tidy` -- a text out of which reading drops nothing, and `segments_of_tidy` what it reads then;
  * `weight_segments_le`, `tidy_of_weight` -- a path read stands for no more bytes than its text,
    and for as many only if the text is tidy.
-/
import DevDashboard.Lib.Url
import Mathlib.Data.List.TakeWhile

namespace DevDashboard.Lib.WebUrl

open Url (Octets utf8 unhex unescape)

/-! ## 1. Percent-decoding -/

/-- Does a text begin with two hexadecimal digits? -/
def twoHex : Str → Bool
  | x :: y :: _ => (unhex x).isSome && (unhex y).isSome
  | _ => false

/-- "Percent-decode" of the URL Standard. -/
def percentDecode : Str → Octets
  | [] => []
  | c :: s =>
      if c = '%' then
        match s with
        | x :: y :: t =>
            match unhex x, unhex y with
            | some a, some b => UInt8.ofNat (16 * a + b) :: percentDecode t
            | _, _ => String.utf8EncodeChar c ++ percentDecode (x :: y :: t)
        | s => String.utf8EncodeChar c ++ percentDecode s
      else String.utf8EncodeChar c ++ percentDecode s

theorem percentDecode_escape {x y : Char} {a b : Nat} (hx : unhex x = some a)
    (hy : unhex y = some b) (t : Str) :
    percentDecode ('%' :: x :: y :: t) = UInt8.ofNat (16 * a + b) :: percentDecode t := by
  rw [percentDecode, if_pos rfl]
  simp only [hx, hy]

theorem percentDecode_plain {c : Char} {s : Str} (h : c = '%' → twoHex s = false) :
    percentDecode (c :: s) = String.utf8EncodeChar c ++ percentDecode s := by
  rw [percentDecode.eq_def]
  dsimp only
  split
  · rename_i hc
    have hs := h hc
    match s with
    | [] => rfl
    | [_] => rfl
    | x :: y :: t =>
        dsimp only
        cases hx : unhex x with
        | none => rfl
        | some a =>
            cases hy : unhex y with
            | none => rfl
            | some b => simp [twoHex, hx, hy] at hs
  · rfl

/-- An escape at the head of a text, or a character that stands for itself. -/
theorem escape_or_plain (c : Char) (s : Str) :
    (∃ x y t a b, c = '%' ∧ s = x :: y :: t ∧ unhex x = some a ∧ unhex y = some b) ∨
      (c = '%' → twoHex s = false) := by
  by_cases h : c = '%' ∧ twoHex s = true
  · obtain ⟨hc, hs⟩ := h
    match s with
    | x :: y :: t =>
        obtain ⟨hx, hy⟩ := Bool.and_eq_true_iff.mp hs
        obtain ⟨a, ha⟩ := Option.isSome_iff_exists.mp hx
        obtain ⟨b, hb⟩ := Option.isSome_iff_exists.mp hy
        exact .inl ⟨x, y, t, a, b, hc, rfl, ha, hb⟩
  · exact .inr fun hc => by simpa using fun hs => h ⟨hc, hs⟩

/-- The bytes that a text stands for are at most those it is written with, and fewer if it has an
    escape and all its escapes are complete. -/
theorem length_percentDecode_le (s : Str) : (percentDecode s).length ≤ (utf8 s).length := by
  match s with
  | [] => rfl
  | c :: s =>
      obtain ⟨x, y, t, a, b, rfl, rfl, hx, hy⟩ | h := escape_or_plain c s
      · have ih := length_percentDecode_le t
        have := Char.utf8Size_pos x
        have := Char.utf8Size_pos y
        rw [percentDecode_escape hx hy]
        simp only [Url.length_utf8_cons, List.length_cons]
        omega
      · have ih := length_percentDecode_le s
        rw [percentDecode_plain h]
        simp only [Url.length_utf8_cons, List.length_append, String.length_utf8EncodeChar]
        omega
  termination_by s.length

theorem percentDecode_of_unescape {s : Str} {u : Octets} (h : unescape s = some u) :
    percentDecode s = u := by
  match s with
  | [] =>
      cases h
      rfl
  | c :: s =>
      by_cases hc : c = '%'
      · subst hc
        obtain hn | ⟨x, y, t, a, b, rfl, hx, hy, he⟩ := Url.unescape_percent_cases s
        · rw [hn] at h
          cases h
        · rw [he] at h
          obtain ⟨v, hv, rfl⟩ := Option.map_eq_some_iff.mp h
          rw [percentDecode_escape hx hy, percentDecode_of_unescape hv]
      · rw [Url.unescape_cons_of_ne hc] at h
        obtain ⟨v, hv, rfl⟩ := Option.map_eq_some_iff.mp h
        rw [percentDecode_plain fun h => absurd h hc, percentDecode_of_unescape hv]
  termination_by s.length

theorem length_percentDecode_lt {s : Str} (h : unescape s ≠ none) (hm : '%' ∈ s) :
    (percentDecode s).length < (utf8 s).length := by
  obtain ⟨u, hu⟩ := Option.ne_none_iff_exists'.mp h
  rw [percentDecode_of_unescape hu]
  exact (Url.length_unescape hu).2 hm

/-- **An escape never reaches over a character that is no hexadecimal digit.** -/
theorem percentDecode_append_cons {d : Char} (hd : unhex d = none) (a b : Str) :
    percentDecode (a ++ d :: b) = percentDecode a ++ percentDecode (d :: b) := by
  match a with
  | [] => rfl
  | c :: s =>
      obtain ⟨x, y, t, p, q, rfl, rfl, hx, hy⟩ | h := escape_or_plain c s
      · show percentDecode ('%' :: x :: y :: (t ++ d :: b)) = _
        rw [percentDecode_escape hx hy, percentDecode_escape hx hy,
          percentDecode_append_cons hd t b]
        rfl
      · have h' : c = '%' → twoHex (s ++ d :: b) = false := fun hc => by
          have := h hc
          match s with
          | [] => cases b <;> simp [twoHex, hd]
          | [_] => simp [twoHex, hd]
          | _ :: _ :: _ => simpa [twoHex] using this
        show percentDecode (c :: (s ++ d :: b)) = _
        rw [percentDecode_plain h', percentDecode_plain h, percentDecode_append_cons hd s b,
          List.append_assoc]
  termination_by a.length

theorem length_percentDecode_cons_pos (c : Char) (s : Str) :
    0 < (percentDecode (c :: s)).length := by
  obtain ⟨x, y, t, a, b, rfl, rfl, hx, hy⟩ | h := escape_or_plain c s
  · rw [percentDecode_escape hx hy]
    exact Nat.succ_pos _
  · have := Char.utf8Size_pos c
    rw [percentDecode_plain h, List.length_append, String.length_utf8EncodeChar]
    omega

/-- A character more, and at most its bytes more. -/
theorem length_percentDecode_cons_le (c : Char) (s : Str) :
    (percentDecode (c :: s)).length ≤ c.utf8Size + (percentDecode s).length := by
  obtain ⟨x, y, t, a, b, rfl, rfl, hx, hy⟩ | h := escape_or_plain c s
  · have := Char.utf8Size_pos x
    have := Char.utf8Size_pos y
    have := Char.utf8Size_pos '%'
    rw [percentDecode_escape hx hy, percentDecode_plain, percentDecode_plain]
    · simp only [List.length_cons, List.length_append, String.length_utf8EncodeChar]
      omega
    · rintro rfl
      cases hy
    · rintro rfl
      cases hx
  · rw [percentDecode_plain h, List.length_append, String.length_utf8EncodeChar]

/-! ## 2. Percent-encoding -/

/-- Outside the path percent-encode set. -/
def keeps (c : Char) : Bool :=
  decide (0x20 < c.toNat) && decide (c.toNat < 0x7f) &&
    !decide (c ∈ ['"', '#', '<', '>', '?', '^', '\x60', '{', '}'])

/-- A hexadecimal digit, in upper case. -/
def upperHex (n : Nat) : Char := (Nat.digitChar n).toUpper

def escapeByte (b : UInt8) : Str := ['%', upperHex (b.toNat / 16), upperHex (b.toNat % 16)]

def encodeChar (c : Char) : Str :=
  if keeps c then [c] else (String.utf8EncodeChar c).flatMap escapeByte

/-- "UTF-8 percent-encode" with the path percent-encode set. -/
def encode (s : Str) : Str := s.flatMap encodeChar

theorem encode_cons (c : Char) (s : Str) : encode (c :: s) = encodeChar c ++ encode s :=
  List.flatMap_cons

theorem encode_cons_of_keeps {c : Char} (h : keeps c = true) (s : Str) :
    encode (c :: s) = c :: encode s := by
  rw [encode_cons, encodeChar, if_pos h]
  rfl

theorem encode_of_keeps {s : Str} (h : ∀ c ∈ s, keeps c = true) : encode s = s := by
  induction s with
  | nil => rfl
  | cons c s ih =>
      rw [encode_cons_of_keeps (h c List.mem_cons_self),
        ih fun d hd => h d (List.mem_cons_of_mem c hd)]

theorem unhex_upperHex {n : Nat} (h : n < 16) : unhex (upperHex n) = some n := by
  have hall : ∀ i : Fin 16, unhex (upperHex i) = some i.val := by decide
  exact hall ⟨n, h⟩

/-- Hexadecimal digits are kept. -/
theorem keeps_of_unhex {c : Char} {n : Nat} (h : unhex c = some n) : keeps c = true := by
  have hrange : 0x30 ≤ c.toNat ∧ c.toNat ≤ 0x66 := by
    unfold unhex at h
    simp only [Char.le_def, UInt32.le_iff_toNat_le] at h
    have : c.val.toNat = c.toNat := rfl
    have h0 : '0'.val.toNat = 0x30 := rfl
    have h9 : '9'.val.toNat = 0x39 := rfl
    have ha : 'a'.val.toNat = 0x61 := rfl
    have hf : 'f'.val.toNat = 0x66 := rfl
    have hA : 'A'.val.toNat = 0x41 := rfl
    have hF : 'F'.val.toNat = 0x46 := rfl
    split_ifs at h <;> omega
  have hne : c ∉ ['"', '#', '<', '>', '?', '^', '\x60', '{', '}'] := by
    intro hm
    have hnone : ∀ d ∈ ['"', '#', '<', '>', '?', '^', '\x60', '{', '}'], unhex d = none :=
      Str.forall_mem_of_all (by decide)
    rw [hnone c hm] at h
    cases h
  unfold keeps
  simp only [Bool.and_eq_true, decide_eq_true_eq, Bool.not_eq_true', decide_eq_false_iff_not]
  exact ⟨⟨by omega, by omega⟩, hne⟩

theorem percentDecode_escapeBytes (bs : Octets) (s : Str) :
    percentDecode (bs.flatMap escapeByte ++ s) = bs ++ percentDecode s := by
  induction bs with
  | nil => rfl
  | cons b bs ih =>
      have hlt := b.toNat_lt
      show percentDecode ('%' :: upperHex (b.toNat / 16) :: upperHex (b.toNat % 16) ::
        (bs.flatMap escapeByte ++ s)) = _
      rw [percentDecode_escape (unhex_upperHex (by omega)) (unhex_upperHex (by omega)), ih,
        Nat.div_add_mod, UInt8.ofNat_toNat]
      rfl

theorem unescape_escapeBytes (bs : Octets) (s : Str) :
    unescape (bs.flatMap escapeByte ++ s) = (unescape s).map (bs ++ ·) := by
  induction bs with
  | nil => simp
  | cons b bs ih =>
      have hlt := b.toNat_lt
      show unescape ('%' :: upperHex (b.toNat / 16) :: upperHex (b.toNat % 16) ::
        (bs.flatMap escapeByte ++ s)) = _
      rw [Url.unescape_percent, unhex_upperHex (by omega), unhex_upperHex (by omega)]
      dsimp only
      rw [ih, Nat.div_add_mod, UInt8.ofNat_toNat, Option.map_map]
      rfl

/-- Encoding makes no two hexadecimal digits at the head and takes none away. -/
theorem twoHex_encode (s : Str) : twoHex (encode s) = twoHex s := by
  have hstart : ∀ (c : Char) (s : Str), keeps c = false → ∃ t, encode (c :: s) = '%' :: t := by
    intro c s hc
    rw [encode_cons, encodeChar, if_neg (by simp [hc])]
    cases he : String.utf8EncodeChar c with
    | nil =>
        have := congrArg List.length he
        rw [String.length_utf8EncodeChar] at this
        have := Char.utf8Size_pos c
        simp_all
    | cons b bs => exact ⟨_, rfl⟩
  have hnone : ∀ c : Char, keeps c = false → unhex c = none := fun c hc => by
    by_contra hne
    obtain ⟨n, hn⟩ := Option.ne_none_iff_exists'.mp hne
    rw [keeps_of_unhex hn] at hc
    cases hc
  have hpercent : unhex '%' = none := by decide
  cases s with
  | nil => rfl
  | cons c s =>
      cases hc : keeps c with
      | false =>
          obtain ⟨t, ht⟩ := hstart c s hc
          rw [ht]
          cases s <;> cases t <;> simp [twoHex, hnone c hc, hpercent]
      | true =>
          rw [encode_cons_of_keeps hc]
          cases s with
          | nil => rfl
          | cons d s =>
              cases hd : keeps d with
              | false =>
                  obtain ⟨t, ht⟩ := hstart d s hd
                  rw [ht]
                  simp [twoHex, hnone d hd, hpercent]
              | true =>
                  rw [encode_cons_of_keeps hd]
                  rfl

/-- **Encoding keeps the bytes a text stands for.** -/
theorem percentDecode_encode (s : Str) : percentDecode (encode s) = percentDecode s := by
  match s with
  | [] => rfl
  | c :: s =>
      obtain ⟨x, y, t, a, b, rfl, rfl, hx, hy⟩ | h := escape_or_plain c s
      · rw [encode_cons_of_keeps (by decide), encode_cons_of_keeps (keeps_of_unhex hx),
          encode_cons_of_keeps (keeps_of_unhex hy), percentDecode_escape hx hy,
          percentDecode_escape hx hy, percentDecode_encode t]
      · rw [percentDecode_plain h]
        cases hc : keeps c with
        | true =>
            rw [encode_cons_of_keeps hc, percentDecode_plain fun he => by
              rw [twoHex_encode]
              exact h he, percentDecode_encode s]
        | false =>
            rw [encode_cons, encodeChar, if_neg (by simp [hc]), percentDecode_escapeBytes,
              percentDecode_encode s]
  termination_by s.length

theorem unescape_percent_of_not {s : Str} (h : twoHex s = false) : unescape ('%' :: s) = none := by
  obtain hn | ⟨x, y, t, a, b, rfl, hx, hy, -⟩ := Url.unescape_percent_cases s
  · exact hn
  · simp [twoHex, hx, hy] at h

/-- **Encoding makes no escape complete**, and none incomplete. -/
theorem unescape_encode (s : Str) : unescape (encode s) = unescape s := by
  match s with
  | [] => rfl
  | c :: s =>
      obtain ⟨x, y, t, a, b, rfl, rfl, hx, hy⟩ | h := escape_or_plain c s
      · rw [encode_cons_of_keeps (by decide), encode_cons_of_keeps (keeps_of_unhex hx),
          encode_cons_of_keeps (keeps_of_unhex hy), Url.unescape_percent, Url.unescape_percent,
          unescape_encode t]
      · by_cases hp : c = '%'
        · subst hp
          rw [encode_cons_of_keeps (by decide), unescape_percent_of_not (h rfl),
            unescape_percent_of_not ((twoHex_encode s).trans (h rfl))]
        · rw [Url.unescape_cons_of_ne hp]
          cases hc : keeps c with
          | true => rw [encode_cons_of_keeps hc, Url.unescape_cons_of_ne hp, unescape_encode s]
          | false =>
              rw [encode_cons, encodeChar, if_neg (by simp [hc]), unescape_escapeBytes,
                unescape_encode s]
  termination_by s.length

/-! ## 3. Reading a path -/

/-- "C0 control or space". -/
def isBlank (c : Char) : Bool := decide (c.toNat ≤ 0x20)

/-- "ASCII tab or newline". -/
def isTab (c : Char) : Bool := decide (c ∈ ['\t', '\n', '\r'])

def isCut (c : Char) : Bool := decide (c ∈ ['?', '#'])

def isSep (c : Char) : Bool := decide (c ∈ ['/', '\\'])

def trimEnd (s : Str) : Str := (s.reverse.dropWhile isBlank).reverse

/-- The path of the reference `/t`, without its first slash and not yet split. -/
def pathPart (t : Str) : Str := ((trimEnd t).filter (!isTab ·)).takeWhile (!isCut ·)

/-- "Single-dot URL path segment". -/
def isDot (s : Str) : Bool := decide (s.map Char.toLower ∈ [".".toList, "%2e".toList])

/-- "Double-dot URL path segment". -/
def isDotDot (s : Str) : Bool :=
  decide (s.map Char.toLower ∈ ["..".toList, ".%2e".toList, "%2e.".toList, "%2e%2e".toList])

/-- The path state over the segments; `path` is what it has so far, the last first. A dot segment
    at the end leaves an empty one. -/
def walk (path : List Str) : List Str → List Str
  | [] => path.reverse
  | s :: rest =>
      if isDotDot s then walk (if rest = [] then [] :: path.tail else path.tail) rest
      else if isDot s then walk (if rest = [] then [] :: path else path) rest
      else walk (encode s :: path) rest

/-- **The segments of the path of `/t`**: each stands after a slash in the URL's path. -/
def segments (t : Str) : List Str := walk [] ((pathPart t).splitOnP isSep)

/-! ## 4. What reading drops -/

theorem unhex_of_isBlank {c : Char} (h : isBlank c = true) : unhex c = none := by
  by_contra hne
  obtain ⟨n, hn⟩ := Option.ne_none_iff_exists'.mp hne
  have hk := keeps_of_unhex hn
  have := of_decide_eq_true h
  simp only [keeps, Bool.and_eq_true, decide_eq_true_eq] at hk
  omega

theorem unhex_of_mem {c : Char} (h : c ∈ ['\t', '\n', '\r', '?', '#', '/', '\\']) :
    unhex c = none := by
  have hall : ∀ d ∈ ['\t', '\n', '\r', '?', '#', '/', '\\'], unhex d = none :=
    Str.forall_mem_of_all (by decide)
  exact hall c h

theorem unhex_of_isTab {c : Char} (h : isTab c = true) : unhex c = none :=
  unhex_of_mem (List.mem_append_left ['?', '#', '/', '\\'] (of_decide_eq_true h))

theorem unhex_of_isCut {c : Char} (h : isCut c = true) : unhex c = none :=
  unhex_of_mem (List.mem_append_right ['\t', '\n', '\r']
    (List.mem_append_left ['/', '\\'] (of_decide_eq_true h)))

theorem unhex_of_isSep {c : Char} (h : isSep c = true) : unhex c = none :=
  unhex_of_mem (List.mem_append_right ['\t', '\n', '\r', '?', '#'] (of_decide_eq_true h))

/-- What is cut off before no hexadecimal digit stands for its own bytes. -/
theorem length_percentDecode_append {s v : Str} (h : ∀ d ∈ v.head?, unhex d = none) :
    (percentDecode s).length ≤ (percentDecode (s ++ v)).length ∧
      ((percentDecode s).length = (percentDecode (s ++ v)).length → v = []) := by
  cases v with
  | nil => simp
  | cons d v =>
      have hpos := length_percentDecode_cons_pos d v
      rw [percentDecode_append_cons (h d rfl), List.length_append]
      exact ⟨by omega, fun _ => by omega⟩

theorem trimEnd_append (s : Str) : trimEnd s ++ (s.reverse.takeWhile isBlank).reverse = s := by
  unfold trimEnd
  rw [← List.reverse_append, List.takeWhile_append_dropWhile, List.reverse_reverse]

theorem length_trimEnd (s : Str) :
    (percentDecode (trimEnd s)).length ≤ (percentDecode s).length ∧
      ((percentDecode (trimEnd s)).length = (percentDecode s).length → trimEnd s = s) := by
  have hs := trimEnd_append s
  have h := length_percentDecode_append (s := trimEnd s)
    (v := (s.reverse.takeWhile isBlank).reverse) fun d hd => by
      have hm := List.mem_reverse.mp (List.mem_of_head? hd)
      exact unhex_of_isBlank (List.all_eq_true.mp List.all_takeWhile d hm)
  rw [hs] at h
  refine ⟨h.1, fun heq => ?_⟩
  rw [h.2 heq, List.append_nil] at hs
  exact hs

theorem length_cut (s : Str) :
    (percentDecode (s.takeWhile (!isCut ·))).length ≤ (percentDecode s).length ∧
      ((percentDecode (s.takeWhile (!isCut ·))).length = (percentDecode s).length →
        s.takeWhile (!isCut ·) = s) := by
  have hs := List.takeWhile_append_dropWhile (p := (!isCut ·)) (l := s)
  have h := length_percentDecode_append (s := s.takeWhile (!isCut ·))
    (v := s.dropWhile (!isCut ·)) fun d hd => by
      have := List.head?_dropWhile_not (!isCut ·) s
      rw [Option.mem_def.mp hd] at this
      exact unhex_of_isCut (by simpa using this)
  rw [hs] at h
  refine ⟨h.1, fun heq => ?_⟩
  rw [h.2 heq, List.append_nil] at hs
  exact hs

/-- Without its tabs a text may have more escapes, but no fewer. -/
theorem length_filter (s : Str) :
    (percentDecode (s.filter (!isTab ·))).length ≤ (percentDecode s).length ∧
      ((percentDecode (s.filter (!isTab ·))).length = (percentDecode s).length →
        s.filter (!isTab ·) = s) := by
  match s with
  | [] => simp
  | c :: s =>
      obtain ⟨x, y, t, a, b, rfl, rfl, hx, hy⟩ | h := escape_or_plain c s
      · have ih := length_filter t
        have hkeep : ∀ (d : Char) (n : Nat), unhex d = some n → isTab d = false :=
          fun d n hd => by
            by_contra htab
            rw [unhex_of_isTab (by simpa using htab)] at hd
            cases hd
        rw [List.filter_cons_of_pos (by decide), List.filter_cons_of_pos (by simp [hkeep x a hx]),
          List.filter_cons_of_pos (by simp [hkeep y b hy]), percentDecode_escape hx hy,
          percentDecode_escape hx hy]
        refine ⟨Nat.succ_le_succ ih.1, fun heq => ?_⟩
        rw [ih.2 (Nat.succ.inj heq)]
      · have ih := length_filter s
        have hpos := Char.utf8Size_pos c
        rw [percentDecode_plain h, List.length_append, String.length_utf8EncodeChar]
        cases hc : isTab c with
        | true =>
            rw [List.filter_cons_of_neg (by simp [hc])]
            exact ⟨by omega, fun heq => by omega⟩
        | false =>
            have hle := length_percentDecode_cons_le c (s.filter (!isTab ·))
            rw [List.filter_cons_of_pos (by simp [hc])]
            refine ⟨by omega, fun heq => ?_⟩
            rw [ih.2 (by omega)]
  termination_by s.length

/-- What follows a path in a reference: nothing, or a query, which has no tab and no blank at its
    end. -/
def IsQuery (q : Str) : Prop :=
  q = [] ∨ q.head? = some '?' ∧ (∀ c ∈ q, isTab c = false) ∧ ∀ c ∈ q.getLast?, isBlank c = false

theorem trimEnd_eq_self_iff {s : Str} : trimEnd s = s ↔ ∀ c ∈ s.getLast?, isBlank c = false := by
  unfold trimEnd
  rcases List.eq_nil_or_concat' s with rfl | ⟨s, c, rfl⟩
  · simp
  · cases hc : isBlank c with
    | true =>
        rw [List.reverse_append, List.reverse_singleton, List.singleton_append,
          List.dropWhile_cons_of_pos hc]
        refine ⟨fun h => ?_, fun h => ?_⟩
        · have hlen := congrArg List.length h
          have := List.length_dropWhile_le isBlank s.reverse
          simp only [List.length_reverse, List.length_append, List.length_singleton] at hlen this
          omega
        · have := h c (by simp)
          rw [hc] at this
          cases this
    | false => simp [hc]

theorem pathPart_append_query {t q : Str} (hq : IsQuery q) :
    pathPart (t ++ q) =
      ((if q = [] then trimEnd t else t).filter (!isTab ·)).takeWhile (!isCut ·) := by
  unfold pathPart
  rcases hq with rfl | ⟨hhead, htab, hlast⟩
  · rw [List.append_nil, if_pos rfl]
  · have hne : q ≠ [] := by
      rintro rfl
      cases hhead
    have htrim : trimEnd (t ++ q) = t ++ q := by
      rw [trimEnd_eq_self_iff, List.getLast?_append_of_ne_nil _ hne]
      exact hlast
    have hfilter : q.filter (!isTab ·) = q := by
      rw [List.filter_eq_self]
      exact fun c hc => by simp [htab c hc]
    rw [htrim, if_neg hne, List.filter_append, hfilter]
    obtain ⟨d, q, rfl⟩ := List.exists_cons_of_ne_nil hne
    cases hhead
    rw [List.takeWhile_append]
    split
    · rw [List.takeWhile_cons_of_neg (by decide), List.append_nil,
        List.Sublist.eq_of_length (List.takeWhile_sublist _) ‹_›]
    · rfl

/-- **A text in which reading drops nothing before it splits**: no tab, no `?` and no `#`, and no
    blank at the end of the reference. -/
def Whole (t q : Str) : Prop :=
  (∀ c ∈ t, isTab c = false ∧ isCut c = false) ∧
    (q = [] → ∀ c ∈ t.getLast?, isBlank c = false)

theorem pathPart_of_whole {t q : Str} (hq : IsQuery q) (h : Whole t q) : pathPart (t ++ q) = t := by
  have htrim : (if q = [] then trimEnd t else t) = t := by
    split
    · exact trimEnd_eq_self_iff.mpr (h.2 ‹_›)
    · rfl
  rw [pathPart_append_query hq, htrim, List.filter_eq_self.mpr fun c hc => by simp [h.1 c hc],
    List.takeWhile_eq_self_iff.mpr fun c hc => by simp [h.1 c hc]]

theorem whole_of_pathPart {t q : Str} (hq : IsQuery q) (h : pathPart (t ++ q) = t) :
    Whole t q := by
  rw [pathPart_append_query hq] at h
  refine ⟨fun c hc => ?_, fun hnil => ?_⟩
  · rw [← h] at hc
    have hm := List.mem_filter.mp ((List.takeWhile_sublist _).subset hc)
    have hcut := List.all_eq_true.mp List.all_takeWhile c hc
    exact ⟨by simpa using hm.2, by simpa using hcut⟩
  · rw [if_pos hnil] at h
    have hsub : t.Sublist (trimEnd t) := by
      conv_lhs => rw [← h]
      exact (List.takeWhile_sublist _).trans List.filter_sublist
    have hsub' : (trimEnd t).Sublist t := by
      conv_rhs => rw [← trimEnd_append t]
      exact List.sublist_append_left ..
    exact trimEnd_eq_self_iff.mp (hsub'.antisymm hsub)

theorem length_pathPart_query {t q : Str} (hq : IsQuery q) :
    (percentDecode (pathPart (t ++ q))).length ≤ (percentDecode t).length ∧
      ((percentDecode (pathPart (t ++ q))).length = (percentDecode t).length → Whole t q) := by
  have hr := pathPart_append_query (t := t) hq
  have h₁ : (percentDecode (if q = [] then trimEnd t else t)).length ≤ (percentDecode t).length ∧
      ((percentDecode (if q = [] then trimEnd t else t)).length = (percentDecode t).length →
        (if q = [] then trimEnd t else t) = t) := by
    split
    · exact length_trimEnd t
    · exact ⟨le_rfl, fun _ => rfl⟩
  generalize (if q = [] then trimEnd t else t) = t₁ at hr h₁
  have h₂ := length_filter t₁
  have h₃ := length_cut (t₁.filter (!isTab ·))
  rw [hr]
  refine ⟨by omega, fun heq => whole_of_pathPart hq ?_⟩
  rw [hr, h₃.2 (by omega), h₂.2 (by omega), h₁.2 (by omega)]

/-- The bytes that a path with these segments stands for, slashes included. -/
def weight (S : List Str) : Nat := (S.map fun s => (percentDecode s).length + 1).sum

@[simp] theorem weight_nil : weight [] = 0 := rfl

@[simp] theorem weight_cons (s : Str) (S : List Str) :
    weight (s :: S) = (percentDecode s).length + 1 + weight S := rfl

@[simp] theorem weight_append (S T : List Str) : weight (S ++ T) = weight S + weight T := by
  simp [weight]

theorem weight_reverse (S : List Str) : weight S.reverse = weight S := by
  unfold weight
  rw [List.map_reverse, List.sum_reverse]

/-- Splitting loses nothing. -/
theorem weight_splitOnP (t : Str) : weight (t.splitOnP isSep) = (percentDecode t).length + 1 := by
  by_cases h : ∃ c ∈ t, isSep c = true
  · obtain ⟨c, hc, hsep⟩ := h
    obtain ⟨u, v, ht⟩ := List.append_of_mem hc
    have hlen : t.length = u.length + (v.length + 1) := by
      rw [ht, List.length_append, List.length_cons]
    have hu := weight_splitOnP u
    have hv := weight_splitOnP v
    have hplain : c = '%' → twoHex v = false := by
      rintro rfl
      cases hsep
    have hsize : c.utf8Size = 1 := by
      have hall : ∀ d ∈ ['/', '\\'], d.utf8Size = 1 := Str.forall_mem_of_all (by decide)
      exact hall c (of_decide_eq_true hsep)
    rw [ht, List.splitOnP_append_cons _ _ hsep, weight_append, hu, hv,
      percentDecode_append_cons (unhex_of_isSep hsep), percentDecode_plain hplain,
      List.length_append, List.length_append, String.length_utf8EncodeChar]
    omega
  · have hno : ∀ c ∈ t, isSep c = false := fun c hc => by
      by_contra hne
      exact h ⟨c, hc, by simpa using hne⟩
    rw [List.splitOnP_eq_singleton hno]
    simp
  termination_by t.length
  decreasing_by all_goals omega

/-- No piece has a separator. -/
theorem not_isSep_of_mem_splitOnP (t : Str) :
    ∀ s ∈ t.splitOnP isSep, ∀ c ∈ s, isSep c = false := by
  by_cases h : ∃ c ∈ t, isSep c = true
  · obtain ⟨c, hc, hsep⟩ := h
    obtain ⟨u, v, ht⟩ := List.append_of_mem hc
    have hlen : t.length = u.length + (v.length + 1) := by
      rw [ht, List.length_append, List.length_cons]
    have hu := not_isSep_of_mem_splitOnP u
    have hv := not_isSep_of_mem_splitOnP v
    rw [ht, List.splitOnP_append_cons _ _ hsep]
    exact fun s hs => (List.mem_append.mp hs).elim (hu s) (hv s)
  · have hno : ∀ c ∈ t, isSep c = false := fun c hc => by
      by_contra hne
      exact h ⟨c, hc, by simpa using hne⟩
    rw [List.splitOnP_eq_singleton hno]
    intro s hs
    rw [List.mem_singleton.mp hs]
    exact hno
  termination_by t.length
  decreasing_by all_goals omega

/-! ## 5. Dot segments -/

def NoDots (S : List Str) : Prop := ∀ s ∈ S, isDot s = false ∧ isDotDot s = false

theorem walk_of_noDots {S : List Str} (h : NoDots S) (path : List Str) :
    walk path S = path.reverse ++ S.map encode := by
  induction S generalizing path with
  | nil => simp [walk]
  | cons s S ih =>
      obtain ⟨hdot, hdots⟩ := h s List.mem_cons_self
      rw [walk, if_neg (by simp [hdots]), if_neg (by simp [hdot]),
        ih fun r hr => h r (List.mem_cons_of_mem s hr)]
      simp

/-- A dot segment stands for one byte at least. -/
theorem percentDecode_pos_of_dot {s : Str} (h : isDot s = true ∨ isDotDot s = true) :
    0 < (percentDecode s).length := by
  cases s with
  | nil => rcases h with h | h <;> cases h
  | cons c s => exact length_percentDecode_cons_pos c s

theorem weight_tail_le (path : List Str) : weight path.tail ≤ weight path := by
  cases path <;> simp

/-- **Resolving dot segments** drops something of every one of them. -/
theorem weight_walk (path S : List Str) : weight (walk path S) ≤ weight path + weight S ∧
    (weight (walk path S) = weight path + weight S → NoDots S) := by
  induction S generalizing path with
  | nil => exact ⟨(weight_reverse path).le, fun _ _ hs => absurd hs List.not_mem_nil⟩
  | cons s S ih =>
      -- a dot segment is worth two at least, and what it leaves at most one
      have hshort : ∀ path', weight path' ≤ weight path →
          (isDot s = true ∨ isDotDot s = true) →
          weight (walk (if S = [] then [] :: path' else path') S) <
            weight path + weight (s :: S) := by
        intro path' hle hdot
        have hpos := percentDecode_pos_of_dot hdot
        have hnew : weight (if S = [] then [] :: path' else path') ≤ weight path' + 1 := by
          split
          · simp [percentDecode, Nat.add_comm]
          · omega
        have := (ih (if S = [] then [] :: path' else path')).1
        rw [weight_cons]
        omega
      rw [walk]
      split
      · have := hshort _ (weight_tail_le path) (.inr ‹_›)
        exact ⟨this.le, fun heq => absurd heq this.ne⟩
      · split
        · have := hshort path le_rfl (.inl ‹_›)
          exact ⟨this.le, fun heq => absurd heq this.ne⟩
        · have hrest := ih (encode s :: path)
          rw [weight_cons, percentDecode_encode] at hrest
          rw [weight_cons]
          refine ⟨by omega, fun heq r hr => ?_⟩
          rcases List.mem_cons.mp hr with rfl | hr
          · exact ⟨by simpa using ‹¬ isDot r = true›, by simpa using ‹¬ isDotDot r = true›⟩
          · exact hrest.2 (by omega) r hr

/-- What the path state has at its end. -/
theorem mem_walk {path S : List Str} {s : Str} (h : s ∈ walk path S) :
    s ∈ path ∨ s = [] ∨ ∃ r ∈ S, s = encode r := by
  induction S generalizing path with
  | nil => exact .inl (List.mem_reverse.mp h)
  | cons r S ih =>
      have hrest : (s = [] ∨ ∃ r ∈ S, s = encode r) → s = [] ∨ ∃ t ∈ r :: S, s = encode t := by
        rintro (rfl | ⟨t, ht, rfl⟩)
        · exact .inl rfl
        · exact .inr ⟨t, List.mem_cons_of_mem r ht, rfl⟩
      have hempty : ∀ path' : List Str, (∀ t ∈ path', t ∈ path) →
          s ∈ walk (if S = [] then [] :: path' else path') S →
          s ∈ path ∨ s = [] ∨ ∃ t ∈ r :: S, s = encode t := by
        intro path' hsub hs
        rcases ih hs with hm | hm
        · split at hm
          · rcases List.mem_cons.mp hm with rfl | hm
            · exact .inr (.inl rfl)
            · exact .inl (hsub s hm)
          · exact .inl (hsub s hm)
        · exact .inr (hrest hm)
      rw [walk] at h
      split at h
      · exact hempty _ (fun t ht => List.mem_of_mem_tail ht) h
      · split at h
        · exact hempty _ (fun _ ht => ht) h
        · rcases ih h with hm | hm
          · rcases List.mem_cons.mp hm with rfl | hm
            · exact .inr (.inr ⟨r, List.mem_cons_self, rfl⟩)
            · exact .inl hm
          · exact .inr (hrest hm)

theorem slash_not_mem_encode {s : Str} (h : '/' ∉ s) : '/' ∉ encode s := by
  intro hm
  obtain ⟨c, hc, hd⟩ := List.mem_flatMap.mp hm
  unfold encodeChar at hd
  split at hd
  · exact h (List.mem_singleton.mp hd ▸ hc)
  · obtain ⟨b, -, hb⟩ := List.mem_flatMap.mp hd
    have hlt := b.toNat_lt
    have hhex : ∀ {n : Nat}, n < 16 → '/' ≠ upperHex n := fun hn he => by
      have := unhex_upperHex hn
      rw [← he] at this
      cases this
    rcases List.mem_cons.mp hb with hb | hb
    · exact absurd hb (by decide)
    · rcases List.mem_cons.mp hb with hb | hb
      · exact hhex (by omega) hb
      · exact hhex (by omega) (List.mem_singleton.mp hb)

/-- No segment has a slash. -/
theorem slash_not_mem_segments {t s : Str} (h : s ∈ segments t) : '/' ∉ s := by
  rcases mem_walk h with h | rfl | ⟨r, hr, rfl⟩
  · exact absurd h List.not_mem_nil
  · exact List.not_mem_nil
  · exact slash_not_mem_encode fun hm =>
      absurd (not_isSep_of_mem_splitOnP _ r hr _ hm) (by decide)

/-! ## 6. Tidy texts -/

/-- **A text in which reading drops nothing.** -/
def Tidy (t q : Str) : Prop := Whole t q ∧ NoDots (t.splitOnP isSep)

theorem segments_of_tidy {t q : Str} (hq : IsQuery q) (h : Tidy t q) :
    segments (t ++ q) = (t.splitOnP isSep).map encode := by
  unfold segments
  rw [pathPart_of_whole hq h.1, walk_of_noDots h.2]
  rfl

theorem weight_segments_le {t q : Str} (hq : IsQuery q) :
    weight (segments (t ++ q)) ≤ (percentDecode t).length + 1 := by
  have h₁ := (weight_walk [] ((pathPart (t ++ q)).splitOnP isSep)).1
  have h₂ := (length_pathPart_query (t := t) hq).1
  rw [weight_nil, weight_splitOnP] at h₁
  unfold segments
  omega

/-- **A path that stands for as many bytes as its text was read from a tidy one.** -/
theorem tidy_of_weight {t q : Str} (hq : IsQuery q)
    (h : weight (segments (t ++ q)) = (percentDecode t).length + 1) : Tidy t q := by
  obtain ⟨hle, heq⟩ := weight_walk [] ((pathPart (t ++ q)).splitOnP isSep)
  obtain ⟨hpath, hwhole⟩ := length_pathPart_query (t := t) hq
  rw [weight_nil, weight_splitOnP] at hle heq
  unfold segments at h
  have hw := hwhole (by omega)
  have hdots := heq (by omega)
  rw [pathPart_of_whole hq hw] at hdots
  exact ⟨hw, hdots⟩

end DevDashboard.Lib.WebUrl
