/-
  File:      DevDashboard/Lib/Url.lean
  Subject:   READING A URL AS GO'S `net/url.Parse` DOES.

  The authority (`user@host:port`) has rules of its own; its reader is a parameter. Everything
  else is here: fragment, control characters, scheme, query, path and percent-escapes. A path is
  kept as it stands in the text, and its segments are the pieces between its slashes, each
  percent-decoded.

  * `cut_of_not_mem`, `cut_append` -- where a text is cut;
  * `unescape_append_slash` -- an escape never reaches over a slash;
  * `unescape_eq_utf8_iff` -- percent-decoding changes a text exactly if it has a `%`;
  * `parse_append_cases` -- what `parse` makes of a base URL with a rooted text after it.
-/
import DevDashboard.Lib.Str

namespace DevDashboard.Lib.Url

abbrev Octets := List UInt8

/-! ## 1. Percent-decoding -/

/-- The bytes of a text. -/
def utf8 (s : Str) : Octets := s.flatMap String.utf8EncodeChar

/-- `ishex` and `unhex`. -/
def unhex (c : Char) : Option Nat :=
  if '0' ≤ c ∧ c ≤ '9' then some (c.toNat - '0'.toNat)
  else if 'a' ≤ c ∧ c ≤ 'f' then some (c.toNat - 'a'.toNat + 10)
  else if 'A' ≤ c ∧ c ≤ 'F' then some (c.toNat - 'A'.toNat + 10)
  else none

/-- `unescape` in a path or a fragment: `none` for a malformed escape. -/
def unescape : Str → Option Octets
  | [] => some []
  | c :: s =>
      if c = '%' then
        match s with
        | x :: y :: t =>
            match unhex x, unhex y with
            | some a, some b => (unescape t).map (UInt8.ofNat (16 * a + b) :: ·)
            | _, _ => none
        | _ => none
      else (unescape s).map (String.utf8EncodeChar c ++ ·)

theorem unescape_cons_of_ne {c : Char} (h : c ≠ '%') (s : Str) :
    unescape (c :: s) = (unescape s).map (String.utf8EncodeChar c ++ ·) := by
  conv_lhs => rw [unescape.eq_def]
  exact if_neg h

theorem unescape_percent (x y : Char) (t : Str) :
    unescape ('%' :: x :: y :: t) =
      match unhex x, unhex y with
      | some a, some b => (unescape t).map (UInt8.ofNat (16 * a + b) :: ·)
      | _, _ => none := by
  rw [unescape, if_pos rfl]

/-- The cases in which an escape is read. -/
theorem unescape_percent_cases (s : Str) :
    unescape ('%' :: s) = none ∨
      ∃ x y t a b, s = x :: y :: t ∧ unhex x = some a ∧ unhex y = some b ∧
        unescape ('%' :: s) = (unescape t).map (UInt8.ofNat (16 * a + b) :: ·) := by
  match s with
  | [] => exact .inl rfl
  | [_] => exact .inl rfl
  | x :: y :: t =>
      rw [unescape_percent]
      cases hx : unhex x with
      | none => exact .inl rfl
      | some a =>
          cases hy : unhex y with
          | none => exact .inl rfl
          | some b => exact .inr ⟨x, y, t, a, b, rfl, hx, hy, rfl⟩

/-- **An escape never reaches over a slash**: a text and what follows it are decoded apart. -/
theorem unescape_append_slash (a b : Str) :
    unescape (a ++ '/' :: b) =
      (unescape a).bind fun u => (unescape b).map fun v => u ++ String.utf8EncodeChar '/' ++ v := by
  match a with
  | [] =>
      rw [List.nil_append, unescape_cons_of_ne (by decide)]
      rfl
  | c :: s =>
      by_cases hc : c = '%'
      · subst hc
        match s with
        | [] =>
            -- `%/`: the slash is no hex digit
            cases b with
            | nil => rfl
            | cons d b =>
                show unescape ('%' :: '/' :: d :: b) = _
                rw [unescape_percent]
                rfl
        | [x] =>
            show unescape ('%' :: x :: '/' :: b) = _
            have h : unhex '/' = none := by decide
            rw [unescape_percent, h]
            cases unhex x <;> rfl
        | x :: y :: t =>
            show unescape ('%' :: x :: y :: (t ++ '/' :: b)) = _
            rw [unescape_percent, unescape_percent, unescape_append_slash t b]
            cases unhex x <;> cases unhex y <;> try rfl
            cases unescape t <;> cases unescape b <;> rfl
      · rw [List.cons_append, unescape_cons_of_ne hc, unescape_cons_of_ne hc,
          unescape_append_slash s b]
        cases unescape s <;> cases unescape b <;> simp
  termination_by a.length

theorem unescape_append_slash_eq_none {a b : Str} :
    unescape (a ++ '/' :: b) = none ↔ unescape a = none ∨ unescape b = none := by
  rw [unescape_append_slash]
  cases unescape a <;> cases unescape b <;> simp

theorem unescape_of_not_mem {s : Str} (h : '%' ∉ s) : unescape s = some (utf8 s) := by
  induction s with
  | nil => rfl
  | cons c s ih =>
      have hc : c ≠ '%' := fun he => h (he ▸ List.mem_cons_self)
      rw [unescape_cons_of_ne hc, ih fun hm => h (List.mem_cons_of_mem c hm)]
      rfl

theorem utf8_append (a b : Str) : utf8 (a ++ b) = utf8 a ++ utf8 b := List.flatMap_append

theorem length_utf8_cons (c : Char) (s : Str) :
    (utf8 (c :: s)).length = c.utf8Size + (utf8 s).length := by simp [utf8]

/-- Decoding never lengthens a text, and an escape shortens it. -/
theorem length_unescape {s : Str} {u : Octets} (h : unescape s = some u) :
    u.length ≤ (utf8 s).length ∧ ('%' ∈ s → u.length < (utf8 s).length) := by
  match s with
  | [] =>
      cases h
      simp
  | c :: s =>
      by_cases hc : c = '%'
      · subst hc
        obtain hn | ⟨x, y, t, a, b, rfl, -, -, he⟩ := unescape_percent_cases s
        · rw [hn] at h
          cases h
        · rw [he] at h
          obtain ⟨v, hv, rfl⟩ := Option.map_eq_some_iff.mp h
          have hl := (length_unescape hv).1
          have hx := x.utf8Size_pos
          have hy := y.utf8Size_pos
          simp only [length_utf8_cons, List.length_cons]
          have hp : Char.utf8Size '%' = 1 := by decide
          exact ⟨by omega, fun _ => by omega⟩
      · rw [unescape_cons_of_ne hc] at h
        obtain ⟨v, hv, rfl⟩ := Option.map_eq_some_iff.mp h
        have hl := length_unescape hv
        simp only [length_utf8_cons, List.length_append, String.length_utf8EncodeChar]
        refine ⟨by omega, fun hm => ?_⟩
        have := hl.2 ((List.mem_cons.mp hm).resolve_left fun he => hc he.symm)
        omega
  termination_by s.length

/-- **Percent-decoding leaves a text as it is exactly if there is no `%` in it.** -/
theorem unescape_eq_utf8_iff {s : Str} : unescape s = some (utf8 s) ↔ '%' ∉ s := by
  refine ⟨fun h hm => ?_, unescape_of_not_mem⟩
  exact absurd ((length_unescape h).2 hm) (lt_irrefl _)

/-! ## 2. Cutting a text -/

/-- `strings.Cut` at a character: what stands before it, and what after it if it is there. -/
def cut (c : Char) (s : Str) : Str × Option Str :=
  match s with
  | [] => ([], none)
  | d :: s => if d = c then ([], some s) else (d :: (cut c s).1, (cut c s).2)

theorem cut_append {c : Char} {a : Str} (h : c ∉ a) (b : Str) :
    cut c (a ++ b) = (a ++ (cut c b).1, (cut c b).2) := by
  induction a with
  | nil => rfl
  | cons d a ih =>
      have hd : d ≠ c := fun he => h (he ▸ List.mem_cons_self)
      rw [List.cons_append, cut, if_neg hd, ih fun hm => h (List.mem_cons_of_mem d hm)]
      rfl

theorem cut_of_not_mem {c : Char} {a : Str} (h : c ∉ a) : cut c a = (a, none) := by
  have := cut_append h []
  simpa [cut] using this

theorem cut_append_cons {c : Char} {a : Str} (h : c ∉ a) (b : Str) :
    cut c (a ++ c :: b) = (a, some b) := by
  rw [cut_append h, cut, if_pos rfl, List.append_nil]

/-- A text with a `c` in it, taken apart at the first one. -/
theorem exists_cut {c : Char} {s : Str} (h : c ∈ s) : ∃ a b, c ∉ a ∧ s = a ++ c :: b := by
  induction s with
  | nil => cases h
  | cons d s ih =>
      by_cases hd : d = c
      · exact ⟨[], s, by simp, by rw [hd]; rfl⟩
      · obtain ⟨a, b, ha, rfl⟩ := ih ((List.mem_cons.mp h).resolve_left fun he => hd he.symm)
        exact ⟨d :: a, b, by simp [ha, Ne.symm hd], rfl⟩

/-- Text after a `c` goes with what stands behind it; where there is none, it changes nothing. -/
theorem cut_append_tail {c : Char} {z : Str} (hz : c ∉ z) (s : Str) :
    cut c (s ++ z) =
      if c ∈ s then ((cut c s).1, (cut c s).2.map (· ++ z)) else (s ++ z, none) := by
  split
  · rename_i h
    obtain ⟨a, b, ha, rfl⟩ := exists_cut h
    rw [List.append_assoc, List.cons_append, cut_append_cons ha, cut_append_cons ha]
    rfl
  · rename_i h
    exact cut_of_not_mem (by simp [h, hz])

/-! ## 3. `Parse` -/

def isLetter (c : Char) : Bool := ('a' ≤ c && c ≤ 'z') || ('A' ≤ c && c ≤ 'Z')

def isSchemeChar (c : Char) : Bool :=
  isLetter c || ('0' ≤ c && c ≤ '9') || c == '+' || c == '-' || c == '.'

/-- `stringContainsCTLByte`. -/
def isCTL (c : Char) : Bool := c.toNat < 0x20 || c.toNat == 0x7f

/-- `getScheme`: the scheme and the rest. A text that has none is all rest, a text that begins
    with the colon is an error. -/
def getScheme (raw : Str) : Option (Str × Str) :=
  match raw.takeWhile isSchemeChar, raw.dropWhile isSchemeChar with
  | [], ':' :: _ => none
  | c :: s, ':' :: rest => if isLetter c then some (c :: s, rest) else some ([], raw)
  | _, _ => some ([], raw)

/-- `url.URL`, with the path and the fragment as they stand in the text. -/
structure URL (A : Type) where
  scheme : Str := []
  /-- `Opaque` -/
  rootless : Str := []
  authority : Option A := none
  rawPath : Str := []
  forceQuery : Bool := false
  rawQuery : Str := []
  rawFragment : Str := []

/-- A path's segments, percent-decoded. -/
def segments (rawPath : Str) : List (Option Octets) := (rawPath.splitOn '/').map unescape

section Parse

variable {A : Type} (readAuthority : Str → Option A)

/-- The query of what follows the scheme: `(rest, ForceQuery, RawQuery)`. -/
def cutQuery (rest : Str) : Str × Bool × Str :=
  if rest.getLast? = some '?' ∧ rest.count '?' = 1 then (rest.dropLast, true, [])
  else ((cut '?' rest).1, false, (cut '?' rest).2.getD [])

/-- `parse` without the fragment. -/
def parseNoFragment (raw : Str) : Option (URL A) :=
  if raw.any isCTL then none
  else if raw = ['*'] then some { rawPath := ['*'] }
  else
    match getScheme raw with
    | none => none
    | some (scheme, rest₀) =>
        let (rest, forceQuery, rawQuery) := cutQuery rest₀
        let url : URL A := { scheme := scheme.map Char.toLower, forceQuery, rawQuery }
        if rest.head? ≠ some '/' ∧ scheme ≠ [] then some { url with rootless := rest }
        else if rest.head? ≠ some '/' ∧ ':' ∈ (cut '/' rest).1 then none
        else if Str.hasPrefix rest ['/', '/'] ∧
            (scheme ≠ [] ∨ ¬ Str.hasPrefix rest ['/', '/', '/']) then
          let authority := (cut '/' (rest.drop 2)).1
          let path := rest.drop (2 + authority.length)
          match readAuthority authority, unescape path with
          | some a, some _ => some { url with authority := some a, rawPath := path }
          | _, _ => none
        else if (unescape rest).isSome then some { url with rawPath := rest }
        else none

/-- `url.Parse`. -/
def parse (raw : Str) : Option (URL A) :=
  match parseNoFragment readAuthority (cut '#' raw).1 with
  | none => none
  | some url =>
      match (cut '#' raw).2 with
      | none => some url
      | some frag => if (unescape frag).isSome then some { url with rawFragment := frag } else none

end Parse

/-! ## 4. A hierarchical base and what is appended to it -/

/-- A base URL `scheme://authority/path` without query or fragment. -/
structure Base where
  scheme : Str
  authority : Str
  path : Str
  scheme_letter : ∃ c s, scheme = c :: s ∧ isLetter c = true
  scheme_chars : ∀ c ∈ scheme, isSchemeChar c = true
  authority_free : ∀ c ∈ authority, c ≠ '/' ∧ c ≠ '?' ∧ c ≠ '#'
  path_rooted : path = [] ∨ path.head? = some '/'
  path_free : ∀ c ∈ path, c ≠ '?' ∧ c ≠ '#'

namespace Base

def text (b : Base) : Str := b.scheme ++ [':', '/', '/'] ++ b.authority ++ b.path

end Base

theorem getScheme_of_scheme {scheme : Str} (rest : Str)
    (hl : ∃ c s, scheme = c :: s ∧ isLetter c = true)
    (hs : ∀ c ∈ scheme, isSchemeChar c = true) :
    getScheme (scheme ++ ':' :: rest) = some (scheme, rest) := by
  obtain ⟨c, s, rfl, hc⟩ := hl
  have hcolon : isSchemeChar ':' = false := by decide
  have ht : (c :: s ++ ':' :: rest).takeWhile isSchemeChar = c :: s := by
    rw [List.takeWhile_append_of_pos hs, List.takeWhile_cons, hcolon]
    simp
  have hd : (c :: s ++ ':' :: rest).dropWhile isSchemeChar = ':' :: rest := by
    rw [List.dropWhile_append_of_pos hs, List.dropWhile_cons, hcolon]
    simp
  unfold getScheme
  rw [ht, hd]
  simp [hc]

theorem scheme_not_mem {c : Char} (hc : isSchemeChar c = false) {scheme : Str}
    (hs : ∀ c ∈ scheme, isSchemeChar c = true) : c ∉ scheme := fun hm => by
  rw [hs c hm] at hc
  cases hc

/-- The path part of a query cut: what stands before the first `?`. -/
theorem cutQuery_fst (s : Str) : (cutQuery s).1 = (cut '?' s).1 := by
  unfold cutQuery
  split
  · rename_i h
    obtain ⟨a, rfl⟩ : ∃ a, s = a ++ ['?'] := by
      obtain ⟨hne, hl⟩ := List.getLast?_eq_some_iff.mp h.1
      exact ⟨hne, hl⟩
    have ha : '?' ∉ a := by
      have := h.2
      rw [List.count_append] at this
      exact List.count_eq_zero.mp (by simpa using this)
    rw [cut_append_cons ha, List.dropLast_concat]
  · rfl

/-- **A text has no query exactly if it has no `?`.** A lone `?` at its end is `ForceQuery`. -/
theorem cutQuery_snd (s : Str) : (cutQuery s).2 = (false, []) ↔ '?' ∉ s := by
  unfold cutQuery
  split
  · rename_i h
    refine ⟨fun he => by simp at he, fun hm => absurd (List.mem_of_getLast? h.1) hm⟩
  · rename_i h
    refine ⟨fun he hm => h ?_, fun hm => by rw [cut_of_not_mem hm]; rfl⟩
    obtain ⟨a, b, ha, rfl⟩ := exists_cut hm
    rw [cut_append_cons ha] at he
    obtain rfl : b = [] := by simpa using he
    simp [List.count_eq_zero.mpr ha]

section Hier

variable {A : Type} (readAuthority : Str → Option A) (b : Base)

/-- What follows the authority is a path: empty or rooted. -/
theorem cut_slash_authority {p : Str} (hp : p = [] ∨ p.head? = some '/') :
    (cut '/' (b.authority ++ p)).1 = b.authority := by
  have ha : '/' ∉ b.authority := fun hm => (b.authority_free _ hm).1 rfl
  rw [cut_append ha]
  rcases hp with rfl | hp
  · simp [cut]
  · obtain ⟨q, rfl⟩ : ∃ q, p = '/' :: q := by
      cases p with
      | nil => cases hp
      | cons c q => exact ⟨q, by rw [Option.some.inj hp]⟩
    simp [cut]

theorem base_path_append {x : Str} (hx : x.head? = some '/') :
    (b.path ++ (cut '?' x).1).head? = some '/' := by
  obtain ⟨q, rfl⟩ : ∃ q, x = '/' :: q := by
    cases x with
    | nil => cases hx
    | cons c q => exact ⟨q, by rw [Option.some.inj hx]⟩
  rcases b.path_rooted with h | h
  · simp [h, cut]
  · rw [List.head?_append, h]
    rfl

/-- **A base with a rooted text after it, read without the fragment.** -/
theorem parseNoFragment_append {x : Str} (hx : x.head? = some '/') :
    parseNoFragment readAuthority (b.text ++ x) =
      if (b.text ++ x).any isCTL then none
      else
        match readAuthority b.authority, unescape (b.path ++ (cut '?' x).1) with
        | some a, some _ =>
            some { scheme := b.scheme.map Char.toLower, authority := some a,
                   rawPath := b.path ++ (cut '?' x).1,
                   forceQuery := (cutQuery (['/', '/'] ++ b.authority ++ b.path ++ x)).2.1,
                   rawQuery := (cutQuery (['/', '/'] ++ b.authority ++ b.path ++ x)).2.2 }
        | _, _ => none := by
  have hq : '?' ∉ ['/', '/'] ++ b.authority ++ b.path := by
    simp only [List.mem_append, not_or]
    exact ⟨⟨by decide, fun hm => (b.authority_free _ hm).2.1 rfl⟩,
      fun hm => (b.path_free _ hm).1 rfl⟩
  have htext : b.text ++ x = b.scheme ++ ':' :: (['/', '/'] ++ b.authority ++ b.path ++ x) := by
    simp [Base.text]
  have hscheme := getScheme_of_scheme (['/', '/'] ++ b.authority ++ b.path ++ x)
    b.scheme_letter b.scheme_chars
  have hne : b.scheme ≠ [] := by
    obtain ⟨c, s, h, -⟩ := b.scheme_letter
    simp [h]
  have hstar : b.text ++ x ≠ ['*'] := by
    obtain ⟨c, s, h, -⟩ := b.scheme_letter
    simp [Base.text, h]
  have hfst : (cutQuery (['/', '/'] ++ b.authority ++ b.path ++ x)).1 =
      ['/', '/'] ++ b.authority ++ (b.path ++ (cut '?' x).1) := by
    rw [cutQuery_fst, cut_append hq, List.append_assoc _ b.path]
  have hroot := base_path_append b hx
  unfold parseNoFragment
  refine if_congr Iff.rfl rfl ?_
  rw [if_neg hstar, htext, hscheme]
  simp only [hfst]
  generalize b.path ++ (cut '?' x).1 = p at hroot ⊢
  have hcut : (cut '/' (b.authority ++ p)).1 = b.authority := cut_slash_authority b (.inr hroot)
  have hpre : Str.hasPrefix (['/', '/'] ++ b.authority ++ p) ['/', '/'] = true :=
    Str.hasPrefix_iff.mpr ⟨b.authority ++ p, by simp⟩
  have hhead : ¬ (['/', '/'] ++ b.authority ++ p).head? ≠ some '/' := by simp
  rw [if_neg fun h => hhead h.1, if_neg fun h => hhead h.1, if_pos ⟨hpre, .inl hne⟩]
  have hdrop : (['/', '/'] ++ b.authority ++ p).drop 2 = b.authority ++ p := by simp
  have hdrop' : (['/', '/'] ++ b.authority ++ p).drop (2 + b.authority.length) = p := by
    rw [← List.drop_drop, hdrop, List.drop_left]
  rw [hdrop, hcut, hdrop']

/-- When a base with a rooted text after it is not read: a control character before the fragment,
    an authority that cannot be read, or a malformed escape in the path or in the fragment. -/
def Rejects (x : Str) : Prop :=
  (b.text ++ (cut '#' x).1).any isCTL = true ∨ readAuthority b.authority = none ∨
    unescape (b.path ++ (cut '?' (cut '#' x).1).1) = none ∨
    ∃ frag, (cut '#' x).2 = some frag ∧ unescape frag = none

/-- **A base with a rooted text after it**: rejected, or read with the base's path extended up to
    the first `?` or `#`. -/
theorem parse_append_cases {x : Str} (hx : x.head? = some '/') :
    (Rejects readAuthority b x ∧ parse readAuthority (b.text ++ x) = none) ∨
      (¬ Rejects readAuthority b x ∧ ∃ url, parse readAuthority (b.text ++ x) = some url ∧
        url.rawPath = b.path ++ (cut '?' (cut '#' x).1).1 ∧
        ((url.forceQuery = false ∧ url.rawQuery = []) ↔ '?' ∉ (cut '#' x).1)) := by
  have hash : '#' ∉ b.text := by
    simp only [Base.text, List.mem_append, not_or]
    exact ⟨⟨⟨scheme_not_mem (by decide) b.scheme_chars, by decide⟩,
      fun hm => (b.authority_free _ hm).2.2 rfl⟩, fun hm => (b.path_free _ hm).2 rfl⟩
  have hq : '?' ∉ ['/', '/'] ++ b.authority ++ b.path := by
    simp only [List.mem_append, not_or]
    exact ⟨⟨by decide, fun hm => (b.authority_free _ hm).2.1 rfl⟩,
      fun hm => (b.path_free _ hm).1 rfl⟩
  have hy : (cut '#' x).1.head? = some '/' := by
    cases x with
    | nil => cases hx
    | cons c q =>
        obtain rfl := Option.some.inj hx
        simp [cut]
  unfold parse Rejects
  rw [cut_append hash, parseNoFragment_append readAuthority b hy]
  generalize (cut '#' x).1 = y
  generalize (cut '#' x).2 = frag
  have hquery := cutQuery_snd (['/', '/'] ++ b.authority ++ b.path ++ y)
  rw [List.mem_append, not_or, and_iff_right hq, Prod.ext_iff] at hquery
  by_cases hc : (b.text ++ y).any isCTL = true
  · exact .inl ⟨.inl hc, by simp only [hc, if_true]⟩
  · rw [if_neg hc]
    cases ha : readAuthority b.authority with
    | none => exact .inl ⟨.inr (.inl rfl), rfl⟩
    | some a =>
        cases hp : unescape (b.path ++ (cut '?' y).1) with
        | none => exact .inl ⟨.inr (.inr (.inl rfl)), rfl⟩
        | some p =>
            cases frag with
            | none => exact .inr ⟨by simpa using hc, _, rfl, rfl, hquery⟩
            | some f =>
                cases hf : unescape f with
                | none => exact .inl ⟨.inr (.inr (.inr ⟨f, rfl, hf⟩)), by simp [hf]⟩
                | some w =>
                    simp only [hf, Option.isSome_some, if_true]
                    exact .inr ⟨by simpa [hf] using hc, _, rfl, rfl, hquery⟩

end Hier

end DevDashboard.Lib.Url
