/-
  File:      DevDashboard/Lib/NetUrl.lean
  Subject:   THE AUTHORITY OF A URL, AND `URL.String`, AS GO'S `net/url` HAS THEM.

  The user is what stands before the last `@`, the host what stands behind it. How a host is read
  differs from release to release of Go (brackets, zones, lists of hosts), so that reader is a
  parameter. `String` writes user, path and fragment with escapes of its own choice and the query
  as it stood.

  * `unescape_escape` -- what is escaped is read back, byte for byte;
  * `readUserinfo_string` -- user and password are read back as they were;
  * `written_of_parse` -- what is known of a URL that was read;
  * `parse_string` -- **a URL with another host**: written and read again it has that host, and
    the same scheme, user, password, path, query and fragment;
  * `parse_userinfo` -- a URL with a user is read as the one without, with the user added.
-/
import DevDashboard.Lib.WebUrl

namespace DevDashboard.Lib.NetUrl

open Url
open WebUrl (escapeByte upperHex unescape_escapeBytes)

/-! ## 1. Escapes -/

/-- `encoding`, as far as it is used here. -/
inductive Encoding where
  | path
  | host
  | userPassword
  | fragment
  deriving DecidableEq

/-- `shouldEscape`. -/
def shouldEscape (mode : Encoding) (c : Char) : Bool :=
  if isLetter c || c.isDigit then false
  else if mode = .host ∧ c ∈ "!$&'()*+,;=:[]<>\"".toList then false
  else if c ∈ "-_.~".toList then false
  else if c ∈ "$&+,/:;=?@".toList then
    match mode with
    | .path => decide (c = '?')
    | .userPassword => decide (c ∈ "@/?:".toList)
    | .fragment => false
    | .host => true
  else if mode = .fragment ∧ c ∈ "!()*".toList then false
  else true

def escapeOctet (mode : Encoding) (b : UInt8) : Str :=
  if shouldEscape mode (Char.ofNat b.toNat) then escapeByte b else [Char.ofNat b.toNat]

/-- `escape`. -/
def escape (mode : Encoding) (bytes : Octets) : Str := bytes.flatMap (escapeOctet mode)

/-- `validEncoded`. -/
def validEncoded (mode : Encoding) (s : Str) : Bool :=
  s.all fun c => decide (c ∈ "!$&'()*+,;=:@[]%".toList) || !shouldEscape mode c

variable {mode : Encoding} {c : Char}

theorem isLetter_iff : isLetter c = true ↔
    0x61 ≤ c.toNat ∧ c.toNat ≤ 0x7a ∨ 0x41 ≤ c.toNat ∧ c.toNat ≤ 0x5a := by
  simp only [isLetter, Bool.or_eq_true, Bool.and_eq_true, decide_eq_true_eq, Char.le_def,
    UInt32.le_iff_toNat_le]
  exact Iff.rfl

/-- A character that is not escaped is a printable one of ASCII. -/
theorem range_of_stays (h : shouldEscape mode c = false) : 0x20 < c.toNat ∧ c.toNat < 0x7f := by
  by_contra hrange
  have hlist : ∀ l : Str, (l.all fun d => decide (0x20 < d.toNat ∧ d.toNat < 0x7f)) = true →
      c ∉ l := fun l hl hm => hrange (of_decide_eq_true (List.all_eq_true.mp hl c hm))
  have hdigit : c.isDigit = false := by
    rw [Bool.eq_false_iff, ne_eq, Char.isDigit_iff_toNat]
    have h0 : '0'.toNat = 0x30 := rfl
    have h9 : '9'.toNat = 0x39 := rfl
    omega
  have hletter : isLetter c = false := by
    rw [Bool.eq_false_iff, ne_eq, isLetter_iff]
    omega
  unfold shouldEscape at h
  simp only [hletter, hdigit, hlist _ (by decide : ("!$&'()*+,;=:[]<>\"".toList.all _) = true),
    hlist _ (by decide : ("-_.~".toList.all _) = true),
    hlist _ (by decide : ("$&+,/:;=?@".toList.all _) = true),
    hlist _ (by decide : ("!()*".toList.all _) = true)] at h
  simp at h

theorem stays_of_alnum (h : (isLetter c || c.isDigit) = true) : shouldEscape mode c = false := by
  unfold shouldEscape
  exact if_pos h

theorem stays_of_unhex {n : Nat} (h : n < 16) : shouldEscape mode (upperHex n) = false := by
  have hall : ∀ i : Fin 16, (isLetter (upperHex i) || (upperHex i).isDigit) = true := by decide
  exact stays_of_alnum (hall ⟨n, h⟩)

/-- What an escaped text is made of. -/
theorem mem_escape {bytes : Octets} (h : c ∈ escape mode bytes) :
    c = '%' ∨ shouldEscape mode c = false := by
  obtain ⟨b, -, hc⟩ := List.mem_flatMap.mp h
  have hlt := b.toNat_lt
  unfold escapeOctet at hc
  split at hc
  · simp only [escapeByte, List.mem_cons, List.not_mem_nil, or_false] at hc
    rcases hc with rfl | rfl | rfl
    · exact .inl rfl
    · exact .inr (stays_of_unhex (by omega))
    · exact .inr (stays_of_unhex (by omega))
  · rename_i hb
    obtain rfl := List.mem_singleton.mp hc
    exact .inr (Bool.eq_false_iff.mpr hb)

/-- A character that is not escaped is the one byte it came from. -/
theorem utf8_of_stays {b : UInt8} (h : shouldEscape mode (Char.ofNat b.toNat) = false) :
    String.utf8EncodeChar (Char.ofNat b.toNat) = [b] := by
  have hlt := b.toNat_lt
  have hvalid : (Char.ofNat b.toNat).toNat = b.toNat := by
    have hv : Nat.isValidChar b.toNat := .inl (by omega)
    rw [Char.ofNat, dif_pos hv]
    rfl
  have hrange := range_of_stays h
  rw [hvalid] at hrange
  have hval : (Char.ofNat b.toNat).val.toNat = b.toNat := hvalid
  unfold String.utf8EncodeChar
  dsimp only
  rw [if_pos (by omega), hval]
  exact congrArg (fun x => [x]) (by simp)

/-- **What is escaped is read back, byte for byte.** -/
theorem unescape_escape (mode : Encoding) (bytes : Octets) :
    unescape (escape mode bytes) = some bytes := by
  induction bytes with
  | nil => rfl
  | cons b bytes ih =>
      show unescape (escapeOctet mode b ++ escape mode bytes) = _
      cases hb : shouldEscape mode (Char.ofNat b.toNat) with
      | true =>
          have hbyte := unescape_escapeBytes [b] (escape mode bytes)
          rw [List.flatMap_singleton, ih] at hbyte
          rw [escapeOctet, if_pos hb, hbyte]
          rfl
      | false =>
          have hne : Char.ofNat b.toNat ≠ '%' := fun he => by
            rw [he] at hb
            cases mode <;> exact absurd hb (by decide)
          rw [escapeOctet, hb, if_neg Bool.false_ne_true, List.singleton_append,
            unescape_cons_of_ne hne, ih, utf8_of_stays hb]
          rfl

/-- Characters that a path or a user never has in it as they are. -/
theorem not_stays_path (h : shouldEscape .path c = false) : c ≠ '?' ∧ c ≠ '#' := by
  refine ⟨?_, ?_⟩ <;> (rintro rfl; exact absurd h (by decide))

theorem not_stays_user (h : shouldEscape .userPassword c = false) :
    c ≠ '@' ∧ c ≠ '/' ∧ c ≠ '?' ∧ c ≠ '#' ∧ c ≠ ':' := by
  refine ⟨?_, ?_, ?_, ?_, ?_⟩ <;> (rintro rfl; exact absurd h (by decide))

theorem isCTL_of_range (h : 0x20 < c.toNat ∧ c.toNat < 0x7f) : isCTL c = false := by
  rw [isCTL, Bool.or_eq_false_iff, decide_eq_false_iff_not, beq_eq_false_iff_ne]
  omega

/-! ## 2. User and host -/

/-- `strings.LastIndex` of a character, and the text cut there. -/
def cutLast (c : Char) (s : Str) : Option Str × Str :=
  match cut c s.reverse with
  | (_, none) => (none, s)
  | (after, some before) => (some before.reverse, after.reverse)

theorem cutLast_append_cons {b : Str} (h : c ∉ b) (a : Str) :
    cutLast c (a ++ c :: b) = (some a, b) := by
  have hrev : (a ++ c :: b).reverse = b.reverse ++ c :: a.reverse := by simp
  rw [cutLast, hrev, cut_append_cons (by simpa using h)]
  simp

theorem cutLast_of_not_mem {s : Str} (h : c ∉ s) : cutLast c s = (none, s) := by
  rw [cutLast, cut_of_not_mem (by simpa using h)]

/-- `Userinfo`. -/
structure Userinfo where
  username : Octets
  password : Option Octets
  deriving DecidableEq

/-- `validUserinfo`, of one character. -/
def isUserinfoChar (c : Char) : Bool :=
  isLetter c || c.isDigit || decide (c ∈ "-._:~!$&'()*+,;=%@".toList)

/-- The user of an authority. -/
def readUserinfo (s : Str) : Option Userinfo :=
  if s.all isUserinfoChar then
    match cut ':' s with
    | (username, none) => (unescape username).map fun n => ⟨n, none⟩
    | (username, some password) => do
        let n ← unescape username
        let p ← unescape password
        some ⟨n, some p⟩
  else none

/-- `Userinfo.String`. -/
def Userinfo.string (ui : Userinfo) : Str :=
  escape .userPassword ui.username ++
    match ui.password with
    | none => []
    | some p => ':' :: escape .userPassword p

/-- The characters of a user that was written. -/
theorem isUserinfoChar_of_stays (h : shouldEscape .userPassword c = false) :
    isUserinfoChar c = true := by
  by_contra hno
  simp only [isUserinfoChar, Bool.or_eq_true, decide_eq_true_eq, not_or, Bool.not_eq_true] at hno
  obtain ⟨⟨hletter, hdigit⟩, hlist⟩ := hno
  have hsub : ∀ l : Str, (l.all fun d => decide (d ∈ "-._:~!$&'()*+,;=%@".toList)) = true →
      c ∉ l := fun l hl hm => hlist (of_decide_eq_true (List.all_eq_true.mp hl c hm))
  have hmark : c ∉ "-_.~".toList := hsub _ (by decide)
  have hreserved : c ∈ "$&+,/:;=?@".toList → c ∈ "@/?:".toList := by
    intro hm
    have hall : ("$&+,/:;=?@".toList.all fun d =>
        decide (d ∈ "-._:~!$&'()*+,;=%@".toList) || decide (d ∈ "@/?:".toList)) = true := by decide
    rcases Bool.or_eq_true_iff.mp (List.all_eq_true.mp hall c hm) with h | h
    · exact absurd (of_decide_eq_true h) hlist
    · exact of_decide_eq_true h
  unfold shouldEscape at h
  by_cases hr : c ∈ "$&+,/:;=?@".toList
  · simp only [hletter, hdigit, hmark, hr, hreserved hr] at h
    simp at h
  · simp only [hletter, hdigit, hmark, hr] at h
    simp at h

theorem mem_userinfo_string {ui : Userinfo} (h : c ∈ ui.string) :
    c = ':' ∨ c = '%' ∨ shouldEscape .userPassword c = false := by
  rcases List.mem_append.mp h with h | h
  · exact .inr (mem_escape h)
  · cases hp : ui.password with
    | none =>
        rw [hp] at h
        cases h
    | some p =>
        rw [hp] at h
        rcases List.mem_cons.mp h with rfl | h
        · exact .inl rfl
        · exact .inr (mem_escape h)

/-- **User and password are read back as they were.** -/
theorem readUserinfo_string (ui : Userinfo) : readUserinfo ui.string = some ui := by
  have hall : ui.string.all isUserinfoChar = true := by
    refine List.all_eq_true.mpr fun c hc => ?_
    rcases mem_userinfo_string hc with rfl | rfl | h
    · decide
    · decide
    · exact isUserinfoChar_of_stays h
  have hname : ':' ∉ escape .userPassword ui.username := by
    intro hm
    rcases mem_escape hm with h | h
    · cases h
    · exact absurd rfl (not_stays_user h).2.2.2.2
  obtain ⟨username, password⟩ := ui
  rw [readUserinfo, if_pos hall]
  cases password with
  | none =>
      rw [Userinfo.string, List.append_nil, cut_of_not_mem hname]
      simp only [unescape_escape, Option.map_some]
  | some p =>
      rw [Userinfo.string, cut_append_cons hname]
      simp only [unescape_escape, Option.bind_eq_bind, Option.bind_some]

/-- `User` and `Host` of a URL. -/
structure Authority where
  user : Option Userinfo
  host : Str

section Read

variable (readHost : Str → Option Str)

/-- `parseAuthority`. -/
def readAuthority (s : Str) : Option Authority :=
  match cutLast '@' s with
  | (none, host) => (readHost host).map fun h => ⟨none, h⟩
  | (some userinfo, host) => do
      let h ← readHost host
      let ui ← readUserinfo userinfo
      some ⟨some ui, h⟩

end Read

/-- `splitHostPort`. -/
def splitHostPort (hostPort : Str) : Str × Str :=
  let (host, port) :=
    match cutLast ':' hostPort with
    | (none, _) => (hostPort, [])
    | (some host, port) => if port.all Char.isDigit then (host, port) else (hostPort, [])
  if host.head? = some '[' ∧ host.getLast? = some ']' then ((host.drop 1).dropLast, port)
  else (host, port)

/-- A character of a host name or of an IPv4 address. -/
def isHostChar (c : Char) : Bool := isLetter c || c.isDigit || decide (c ∈ "-._".toList)

/-- A host name or an IPv4 address. -/
def HostName (s : Str) : Prop := s ≠ [] ∧ s.all isHostChar = true

/-- A port in decimal. -/
def PortText (s : Str) : Prop := s ≠ [] ∧ s.all Char.isDigit = true

instance (s : Str) : Decidable (HostName s) := inferInstanceAs (Decidable (_ ∧ _))

instance (s : Str) : Decidable (PortText s) := inferInstanceAs (Decidable (_ ∧ _))

theorem stays_of_isHostChar (h : isHostChar c = true) : shouldEscape mode c = false := by
  rw [isHostChar, Bool.or_eq_true] at h
  rcases h with h | h
  · exact stays_of_alnum h
  · have hall : ("-._".toList.all fun d => !shouldEscape mode d) = true := by cases mode <;> decide
    simpa using List.all_eq_true.mp hall c (of_decide_eq_true h)

theorem isHostChar_of_isDigit (h : c.isDigit = true) : isHostChar c = true := by
  rw [isHostChar, h, Bool.or_true, Bool.true_or]

section HostPort

variable {h p : Str} (hh : HostName h) (hp : PortText p)

include hh hp in
theorem mem_hostPort (hc : c ∈ h ++ ':' :: p) : c = ':' ∨ isHostChar c = true := by
  rcases List.mem_append.mp hc with hc | hc
  · exact .inr (List.all_eq_true.mp hh.2 c hc)
  · rcases List.mem_cons.mp hc with rfl | hc
    · exact .inl rfl
    · exact .inr (isHostChar_of_isDigit (List.all_eq_true.mp hp.2 c hc))

include hp in
theorem colon_not_mem_port : ':' ∉ p := fun hm =>
  absurd (List.all_eq_true.mp hp.2 ':' hm) (by decide)

include hh in
theorem colon_not_mem_host : ':' ∉ h := fun hm =>
  absurd (List.all_eq_true.mp hh.2 ':' hm) (by decide)

include hh hp in
theorem splitHostPort_hostPort : splitHostPort (h ++ ':' :: p) = (h, p) := by
  have hbracket : ¬ (h.head? = some '[' ∧ h.getLast? = some ']') := fun ⟨hb, _⟩ =>
    absurd (List.all_eq_true.mp hh.2 '[' (List.mem_of_head? hb)) (by decide)
  rw [splitHostPort, cutLast_append_cons (colon_not_mem_port hp)]
  simp only [hp.2, if_true]
  rw [if_neg hbracket]

end HostPort

/-! ## 3. `String` -/

/-- `RawPath` or `RawFragment`, where the text may be written as it was read. -/
def validRaw (mode : Encoding) (s : Str) (bytes : Octets) : Option Str :=
  if s ≠ escape mode bytes ∧ s ≠ [] ∧ validEncoded mode s = true then some s else none

/-- `EscapedPath`, of a path read from `p`. -/
def escapedPath (p : Str) : Str :=
  let path := (unescape p).getD []
  (validRaw .path p path).getD (if path = utf8 ['*'] then ['*'] else escape .path path)

/-- `EscapedFragment`, of a fragment read from `f`. -/
def escapedFragment (f : Str) : Str :=
  let fragment := (unescape f).getD []
  (validRaw .fragment f fragment).getD (escape .fragment fragment)

/-- The user, as it stands before the host. -/
def userText : Option Userinfo → Str
  | none => []
  | some ui => ui.string ++ ['@']

def queryText {A : Type} (u : URL A) : Str :=
  if u.forceQuery = true ∨ u.rawQuery ≠ [] then '?' :: u.rawQuery else []

def fragmentText {A : Type} (u : URL A) : Str :=
  if u.rawFragment ≠ [] then '#' :: escapedFragment u.rawFragment else []

/-- `URL.String` of a URL that begins with a scheme and `//`, after its `Host` was set. Such a URL
    has no `Opaque` and a path that is empty or rooted. -/
def string (u : URL Authority) (a : Authority) : Str :=
  u.scheme ++ ':' ::
    ((if a.host ≠ [] ∨ u.rawPath ≠ [] ∨ a.user.isSome then
        ['/', '/'] ++ userText a.user ++ escape .host (utf8 a.host)
      else []) ++
      escapedPath u.rawPath ++ queryText u ++ fragmentText u)

/-- What may stand in a path as it is. -/
theorem mem_validEncoded_path {s : Str} (h : validEncoded .path s = true) (hc : c ∈ s) :
    c ≠ '?' ∧ c ≠ '#' ∧ isCTL c = false := by
  have hlist : ("!$&'()*+,;=:@[]%".toList.all fun d =>
      decide (d ≠ '?' ∧ d ≠ '#' ∧ isCTL d = false)) = true := by decide
  rcases Bool.or_eq_true_iff.mp (List.all_eq_true.mp h c hc) with h | h
  · exact of_decide_eq_true (List.all_eq_true.mp hlist c (of_decide_eq_true h))
  · have hstay : shouldEscape .path c = false := by simpa using h
    exact ⟨(not_stays_path hstay).1, (not_stays_path hstay).2,
      isCTL_of_range (range_of_stays hstay)⟩

theorem mem_escape_path {bytes : Octets} (hc : c ∈ escape .path bytes) :
    c ≠ '?' ∧ c ≠ '#' ∧ isCTL c = false := by
  rcases mem_escape hc with rfl | hstay
  · decide
  · exact ⟨(not_stays_path hstay).1, (not_stays_path hstay).2,
      isCTL_of_range (range_of_stays hstay)⟩

theorem validRaw_cases (mode : Encoding) (s : Str) (bytes : Octets) :
    validRaw mode s bytes = none ∨
      validRaw mode s bytes = some s ∧ s ≠ [] ∧ validEncoded mode s = true := by
  unfold validRaw
  split
  · rename_i h
    exact .inr ⟨rfl, h.2⟩
  · exact .inl rfl

/-- The path that is written stands for the same bytes. -/
theorem unescape_escapedPath {p : Str} {path : Octets} (h : unescape p = some path) :
    unescape (escapedPath p) = some path := by
  simp only [escapedPath, h, Option.getD_some]
  rcases validRaw_cases .path p path with hn | ⟨hs, -, -⟩
  · rw [hn, Option.getD_none]
    split
    · rename_i hstar
      rw [hstar]
      rfl
    · exact unescape_escape .path path
  · rw [hs, Option.getD_some, h]

theorem mem_escapedPath {p : Str} (hc : c ∈ escapedPath p) :
    c ≠ '?' ∧ c ≠ '#' ∧ isCTL c = false := by
  unfold escapedPath at hc
  dsimp only at hc
  rcases validRaw_cases .path p ((unescape p).getD []) with hn | ⟨hs, -, hv⟩
  · rw [hn, Option.getD_none] at hc
    split at hc
    · obtain rfl := List.mem_singleton.mp hc
      decide
    · exact mem_escape_path hc
  · rw [hs, Option.getD_some] at hc
    exact mem_validEncoded_path hv hc

/-- A path that was empty or rooted is written so. -/
theorem escapedPath_rooted {p : Str} (h : p = [] ∨ p.head? = some '/') :
    escapedPath p = [] ∨ (escapedPath p).head? = some '/' := by
  rcases h with rfl | h
  · exact .inl rfl
  · obtain ⟨q, rfl⟩ : ∃ q, p = '/' :: q := by
      cases p with
      | nil => cases h
      | cons d q => exact ⟨q, by rw [Option.some.inj h]⟩
    unfold escapedPath
    dsimp only
    rcases validRaw_cases .path ('/' :: q) ((unescape ('/' :: q)).getD []) with hn | ⟨hs, -, -⟩
    · rw [hn, Option.getD_none, unescape_cons_of_ne (by decide)]
      cases unescape q with
      | none => exact .inl rfl
      | some path => exact .inr rfl
    · rw [hs]
      exact .inr rfl

theorem unescape_escapedFragment {f : Str} {fragment : Octets} (h : unescape f = some fragment) :
    unescape (escapedFragment f) = some fragment := by
  simp only [escapedFragment, h, Option.getD_some]
  rcases validRaw_cases .fragment f fragment with hn | ⟨hs, -, -⟩
  · rw [hn, Option.getD_none, unescape_escape]
  · rw [hs, Option.getD_some, h]

/-! ## 4. What is known of a URL that was read -/

/-- A URL that begins with a scheme and `//`, as it was read. -/
structure Written {A : Type} (u : URL A) : Prop where
  scheme_letter : ∃ c s, u.scheme = c :: s ∧ isLetter c = true
  scheme_chars : ∀ c ∈ u.scheme, isSchemeChar c = true
  scheme_lower : u.scheme.map Char.toLower = u.scheme
  path : (unescape u.rawPath).isSome = true
  rooted : u.rawPath = [] ∨ u.rawPath.head? = some '/'
  query : ∀ c ∈ u.rawQuery, c ≠ '#' ∧ isCTL c = false
  force : u.forceQuery = true → u.rawQuery = []
  fragment : (unescape u.rawFragment).isSome = true

theorem not_mem_cut_fst (c : Char) (s : Str) : c ∉ (cut c s).1 := by
  induction s with
  | nil => simp [cut]
  | cons d s ih =>
      by_cases h : d = c
      · simp [cut, h]
      · simp [cut, h, ih, Ne.symm h]

theorem cut_snd_subset (c : Char) (s : Str) : (cut c s).2.getD [] ⊆ s := by
  by_cases h : c ∈ s
  · obtain ⟨a, b, ha, rfl⟩ := exists_cut h
    rw [cut_append_cons ha]
    exact fun d hd => List.mem_append_right a (List.mem_cons_of_mem c hd)
  · rw [cut_of_not_mem h]
    exact List.nil_subset s

/-- A scheme that was read. -/
theorem getScheme_some {raw scheme rest : Str} (h : getScheme raw = some (scheme, rest))
    (hs : scheme ≠ []) :
    raw = scheme ++ ':' :: rest ∧ (∃ c s, scheme = c :: s ∧ isLetter c = true) ∧
      ∀ c ∈ scheme, isSchemeChar c = true := by
  have hraw := List.takeWhile_append_dropWhile (p := isSchemeChar) (l := raw)
  have hchars : ∀ c ∈ raw.takeWhile isSchemeChar, isSchemeChar c = true :=
    fun c hc => List.mem_takeWhile_imp hc
  unfold getScheme at h
  split at h
  · cases h
  · rename_i c s rest' htake hdrop
    split at h
    · rename_i hletter
      obtain ⟨rfl, rfl⟩ := Prod.mk.inj (Option.some.inj h)
      rw [htake, hdrop] at hraw
      rw [htake] at hchars
      exact ⟨hraw.symm, ⟨c, s, rfl, hletter⟩, hchars⟩
    · exact absurd (Prod.mk.inj (Option.some.inj h)).1.symm hs
  · exact absurd (Prod.mk.inj (Option.some.inj h)).1.symm hs

theorem cutQuery_force {s : Str} (h : (cutQuery s).2.1 = true) : (cutQuery s).2.2 = [] := by
  unfold cutQuery at h ⊢
  split at h
  · rename_i hq
    rw [if_pos hq]
  · cases h

theorem cutQuery_query_subset (s : Str) : (cutQuery s).2.2 ⊆ s := by
  unfold cutQuery
  split
  · exact List.nil_subset s
  · exact cut_snd_subset '?' s

theorem toLower_cases (c : Char) :
    c.toLower = c ∨ 0x41 ≤ c.toNat ∧ c.toNat ≤ 0x5a ∧ c.toLower.toNat = c.toNat + 0x20 := by
  by_cases h : c.val ≥ 'A'.val ∧ c.val ≤ 'Z'.val
  · right
    have hval : c.toLower.val = c.val + ('a'.val - 'A'.val) :=
      congrArg Char.val (dif_pos h)
    have hlow : 0x41 ≤ c.val.toNat := UInt32.le_iff_toNat_le.mp h.1
    have hhigh : c.val.toNat ≤ 0x5a := UInt32.le_iff_toNat_le.mp h.2
    refine ⟨hlow, hhigh, ?_⟩
    show c.toLower.val.toNat = c.val.toNat + 0x20
    have hdiff : ('a'.val - 'A'.val).toNat = 0x20 := rfl
    rw [hval, UInt32.toNat_add, hdiff]
    omega
  · exact .inl (dif_neg h)

theorem toLower_toLower (c : Char) : c.toLower.toLower = c.toLower := by
  rcases toLower_cases c with h | ⟨h₁, h₂, h₃⟩
  · rw [h, h]
  · rcases toLower_cases c.toLower with h | ⟨h₄, h₅, -⟩
    · exact h
    · omega

theorem isLetter_toLower (h : isLetter c = true) : isLetter c.toLower = true := by
  rcases toLower_cases c with hl | ⟨h₁, h₂, h₃⟩
  · rwa [hl]
  · rw [isLetter_iff]
    omega

theorem isSchemeChar_toLower (h : isSchemeChar c = true) : isSchemeChar c.toLower = true := by
  rcases toLower_cases c with hl | ⟨h₁, h₂, h₃⟩
  · rwa [hl]
  · have hletter : isLetter c.toLower = true := isLetter_iff.mpr (by omega)
    simp [isSchemeChar, hletter]

/-- Behind the authority there is nothing, or a slash. -/
theorem drop_cut_slash (r : Str) :
    r.drop (cut '/' r).1.length = [] ∨ (r.drop (cut '/' r).1.length).head? = some '/' := by
  by_cases h : '/' ∈ r
  · obtain ⟨a, b, ha, rfl⟩ := exists_cut h
    rw [cut_append_cons ha, List.drop_left]
    exact .inr rfl
  · rw [cut_of_not_mem h, List.drop_length]
    exact .inl rfl

section Inversion

variable {A : Type} {ra : Str → Option A}

/-- **What is known of a URL that was read**, apart from its fragment. -/
theorem written_of_parseNoFragment {raw : Str} {u : URL A}
    (h : parseNoFragment ra raw = some u) (hs : u.scheme ≠ []) (ha : u.authority ≠ none)
    (hash : '#' ∉ raw) : Written u ∧ u.rawFragment = [] := by
  unfold parseNoFragment at h
  split at h
  · cases h
  · rename_i hctl
    have hchar : ∀ c ∈ raw, c ≠ '#' ∧ isCTL c = false := fun c hc =>
      ⟨fun he => hash (he ▸ hc), by simpa using fun hct => hctl (List.any_eq_true.mpr ⟨c, hc, hct⟩)⟩
    split at h
    · obtain rfl := Option.some.inj h
      exact absurd rfl hs
    · split at h
      · cases h
      · rename_i scheme rest₀ hscheme
        dsimp only at h
        have hquery : ∀ d ∈ (cutQuery rest₀).2.2, d ∈ rest₀ := fun d hd =>
          cutQuery_query_subset rest₀ hd
        split at h
        · obtain rfl := Option.some.inj h
          exact absurd rfl ha
        · split at h
          · cases h
          · split at h
            · rename_i hslash
              split at h
              · rename_i a path _ hpath
                obtain rfl := Option.some.inj h
                have hne : scheme ≠ [] := fun he => hs (by rw [he]; rfl)
                obtain ⟨hraw, ⟨c, s, hcs, hletter⟩, hchars⟩ := getScheme_some hscheme hne
                obtain ⟨r, hr⟩ := Str.hasPrefix_iff.mp hslash.1
                have hdrop : (cutQuery rest₀).1.drop (2 + (cut '/' ((cutQuery rest₀).1.drop
                    2)).1.length) = r.drop (cut '/' r).1.length := by
                  rw [← hr, ← List.drop_drop]
                  rfl
                refine ⟨⟨⟨c.toLower, s.map Char.toLower, ?_, isLetter_toLower hletter⟩, ?_, ?_, ?_,
                  ?_, ?_, fun hforce => cutQuery_force hforce, rfl⟩, rfl⟩
                · rw [hcs]
                  rfl
                · intro d hd
                  obtain ⟨e, he, rfl⟩ := List.mem_map.mp hd
                  exact isSchemeChar_toLower (hchars e he)
                · rw [List.map_map]
                  exact List.map_congr_left fun e _ => toLower_toLower e
                · rw [hpath]
                  rfl
                · show (cutQuery rest₀).1.drop _ = [] ∨ ((cutQuery rest₀).1.drop _).head? = _
                  rw [hdrop]
                  exact drop_cut_slash r
                · intro d hd
                  refine hchar d ?_
                  rw [hraw]
                  exact List.mem_append_right _ (List.mem_cons_of_mem _ (hquery d hd))
              · cases h
            · split at h
              · obtain rfl := Option.some.inj h
                exact absurd rfl ha
              · cases h

/-- **What is known of a URL that was read.** -/
theorem written_of_parse {raw : Str} {u : URL A} (h : parse ra raw = some u) (hs : u.scheme ≠ [])
    (ha : u.authority ≠ none) : Written u := by
  unfold parse at h
  split at h
  · cases h
  · rename_i url hurl
    have hash := not_mem_cut_fst '#' raw
    split at h
    · obtain rfl := Option.some.inj h
      exact (written_of_parseNoFragment hurl hs ha hash).1
    · split at h
      · rename_i hfragment
        obtain rfl := Option.some.inj h
        obtain ⟨hw, -⟩ := written_of_parseNoFragment hurl hs ha hash
        exact { hw with fragment := hfragment }
      · cases h

/-- A query behind a text that has none. -/
theorem cutQuery_append {a : Str} (ha : '?' ∉ a) (s : Str) :
    cutQuery (a ++ s) = (a ++ (cutQuery s).1, (cutQuery s).2) := by
  have hcount : (a ++ s).count '?' = s.count '?' := by
    rw [List.count_append, List.count_eq_zero.mpr ha, Nat.zero_add]
  have hlast : (a ++ s).getLast? = some '?' ↔ s.getLast? = some '?' := by
    cases s with
    | nil =>
        rw [List.append_nil]
        exact ⟨fun h => absurd (List.mem_of_getLast? h) ha, fun h => by cases h⟩
    | cons c s => rw [List.getLast?_append_of_ne_nil _ (List.cons_ne_nil c s)]
  unfold cutQuery
  by_cases h : s.getLast? = some '?' ∧ s.count '?' = 1
  · rw [if_pos h, if_pos ⟨hlast.mpr h.1, hcount.trans h.2⟩]
    cases s with
    | nil => cases h.1
    | cons c s => rw [List.dropLast_append_of_ne_nil (List.cons_ne_nil c s)]
  · rw [if_neg h, if_neg fun h' => h ⟨hlast.mp h'.1, hcount.symm.trans h'.2⟩, cut_append ha]

section Slashes

variable {scheme : Str} (hletter : ∃ c s, scheme = c :: s ∧ isLetter c = true)
  (hchars : ∀ c ∈ scheme, isSchemeChar c = true)

include hletter hchars in
/-- A text that begins with a scheme and `//`, read without the fragment. -/
theorem parseNoFragment_slashes (s : Str) :
    parseNoFragment ra (scheme ++ ':' :: '/' :: '/' :: s) =
      if (scheme ++ ':' :: '/' :: '/' :: s).any isCTL then none
      else
        (ra (cut '/' (cutQuery s).1).1).bind fun a =>
          (unescape ((cutQuery s).1.drop (cut '/' (cutQuery s).1).1.length)).map fun _ =>
            { scheme := scheme.map Char.toLower, authority := some a
              rawPath := (cutQuery s).1.drop (cut '/' (cutQuery s).1).1.length
              forceQuery := (cutQuery s).2.1, rawQuery := (cutQuery s).2.2 } := by
  have hne : scheme ≠ [] := by
    obtain ⟨c, t, rfl, -⟩ := hletter
    exact List.cons_ne_nil c t
  have hstar : scheme ++ ':' :: '/' :: '/' :: s ≠ ['*'] := by
    obtain ⟨c, t, rfl, -⟩ := hletter
    cases t <;> simp
  have hquery : cutQuery ('/' :: '/' :: s) = ('/' :: '/' :: (cutQuery s).1, (cutQuery s).2) :=
    cutQuery_append (a := ['/', '/']) (by decide) s
  have hdrop : ∀ (q : Str) (n : Nat), ('/' :: '/' :: q).drop (2 + n) = q.drop n := by
    intro q n
    rw [← List.drop_drop]
    rfl
  unfold parseNoFragment
  rw [getScheme_of_scheme _ hletter hchars, if_neg hstar]
  split
  · rfl
  · simp only [hquery]
    rw [if_neg (fun hr => hr.1 rfl), if_neg (fun hr => hr.1 rfl), if_pos ⟨rfl, .inl hne⟩]
    simp only [List.drop_succ_cons, List.drop_zero, hdrop]
    cases ra (cut '/' (cutQuery s).1).1 with
    | none => rfl
    | some a =>
        cases unescape ((cutQuery s).1.drop (cut '/' (cutQuery s).1).1.length) with
        | none => rfl
        | some path => rfl

include hchars in
/-- The part before the fragment, and the fragment. -/
theorem parse_slashes (s : Str) :
    parse ra (scheme ++ ':' :: '/' :: '/' :: s) =
      (parseNoFragment ra (scheme ++ ':' :: '/' :: '/' :: (cut '#' s).1)).bind fun u =>
        match (cut '#' s).2 with
        | none => some u
        | some f => (unescape f).map fun _ => { u with rawFragment := f } := by
  have hash : '#' ∉ scheme ++ [':', '/', '/'] := by
    intro hm
    rcases List.mem_append.mp hm with hm | hm
    · exact scheme_not_mem (by decide) hchars hm
    · exact absurd hm (by decide)
  have htext : ∀ t : Str, scheme ++ ':' :: '/' :: '/' :: t = (scheme ++ [':', '/', '/']) ++ t :=
    fun t => by simp
  rw [htext s, htext (cut '#' s).1, parse, cut_append hash]
  dsimp only
  cases parseNoFragment ra (scheme ++ [':', '/', '/'] ++ (cut '#' s).1) with
  | none => rfl
  | some u =>
      dsimp only [Option.bind_some]
      cases (cut '#' s).2 with
      | none => rfl
      | some f => cases hf : unescape f <;> simp [hf]

include hletter hchars in
/-- **A text that begins with a scheme and `//`** is read as a URL that has both. -/
theorem hierarchical_of_parse {s : Str} {u : URL A}
    (h : parse ra (scheme ++ ':' :: '/' :: '/' :: s) = some u) :
    u.scheme ≠ [] ∧ u.authority ≠ none := by
  have hplain : ∀ {t : Str} {v : URL A},
      parseNoFragment ra (scheme ++ ':' :: '/' :: '/' :: t) = some v →
        v.scheme ≠ [] ∧ v.authority ≠ none := by
    intro t v hv
    rw [parseNoFragment_slashes hletter hchars] at hv
    split at hv
    · cases hv
    · obtain ⟨a, -, hv⟩ := Option.bind_eq_some_iff.mp hv
      obtain ⟨path, -, rfl⟩ := Option.map_eq_some_iff.mp hv
      obtain ⟨c, t, rfl, -⟩ := hletter
      exact ⟨List.cons_ne_nil _ _, Option.some_ne_none a⟩
  rw [parse_slashes hchars] at h
  obtain ⟨v, hv, h⟩ := Option.bind_eq_some_iff.mp h
  split at h
  · obtain rfl := Option.some.inj h
    exact hplain hv
  · obtain ⟨f, -, rfl⟩ := Option.map_eq_some_iff.mp h
    have hboth := hplain hv
    exact ⟨hboth.1, hboth.2⟩

end Slashes

end Inversion

/-! ## 5. Written and read again -/

section RoundTrip

variable {A : Type} {u : URL A}

theorem free_of_isSchemeChar {c : Char} (h : isSchemeChar c = true) :
    c ≠ '#' ∧ isCTL c = false := by
  have h0 : '0'.val.toNat = 0x30 := rfl
  have h9 : '9'.val.toNat = 0x39 := rfl
  have hval : c.val.toNat = c.toNat := rfl
  simp only [isSchemeChar, Bool.or_eq_true, isLetter_iff, Bool.and_eq_true, decide_eq_true_eq,
    Char.le_def, UInt32.le_iff_toNat_le, beq_iff_eq] at h
  rcases h with (((h | h) | rfl) | rfl) | rfl
  · exact ⟨fun he => by subst he; revert h; decide, isCTL_of_range (by omega)⟩
  · exact ⟨fun he => by subst he; revert h; decide, isCTL_of_range (by omega)⟩
  · decide
  · decide
  · decide

/-- A query is read back as it was. -/
theorem cutQuery_queryText {s : Str} (hs : '?' ∉ s)
    (hforce : u.forceQuery = true → u.rawQuery = []) :
    cutQuery (s ++ queryText u) = (s, u.forceQuery, u.rawQuery) := by
  unfold queryText
  cases hf : u.forceQuery with
  | true =>
      have hlone : (s ++ ['?']).getLast? = some '?' ∧ (s ++ ['?']).count '?' = 1 := by
        simp [List.count_eq_zero.mpr hs]
      rw [if_pos (.inl rfl), hforce hf, cutQuery, if_pos hlone, List.dropLast_concat]
  | false =>
      cases hq : u.rawQuery with
      | nil =>
          have hlast : ¬ ((s ++ []).getLast? = some '?' ∧ (s ++ []).count '?' = 1) := fun h =>
            hs (by simpa using List.mem_of_getLast? h.1)
          rw [if_neg (by simp), cutQuery, if_neg hlast, List.append_nil, cut_of_not_mem hs]
          rfl
      | cons c q =>
          have hlast : ¬ ((s ++ '?' :: c :: q).getLast? = some '?' ∧
              (s ++ '?' :: c :: q).count '?' = 1) := by
            rintro ⟨hl, hcount⟩
            have hmem : '?' ∈ c :: q := by
              rw [List.getLast?_append_of_ne_nil _ (List.cons_ne_nil _ _),
                List.getLast?_cons_cons] at hl
              exact List.mem_of_getLast? hl
            have hpos := List.count_pos_iff.mpr hmem
            rw [List.count_append, List.count_eq_zero.mpr hs, List.count_cons_self] at hcount
            omega
          rw [if_pos (.inr (List.cons_ne_nil c q)), cutQuery, if_neg hlast, cut_append_cons hs]
          rfl

/-- A base with a query after it, read without the fragment. -/
theorem parseNoFragment_queryText {ra : Str → Option A} (b : Base) {a : A} {path : Octets}
    (hctl : (b.text ++ queryText u).any isCTL = false) (ha : ra b.authority = some a)
    (hpath : unescape b.path = some path) (hforce : u.forceQuery = true → u.rawQuery = []) :
    parseNoFragment ra (b.text ++ queryText u) =
      some { scheme := b.scheme.map Char.toLower, authority := some a, rawPath := b.path,
             forceQuery := u.forceQuery, rawQuery := u.rawQuery } := by
  have hq : '?' ∉ b.authority ++ b.path := by
    rw [List.mem_append, not_or]
    exact ⟨fun hm => (b.authority_free _ hm).2.1 rfl, fun hm => (b.path_free _ hm).1 rfl⟩
  have htext : b.text ++ queryText u =
      b.scheme ++ ':' :: '/' :: '/' :: (b.authority ++ b.path ++ queryText u) := by
    simp [Base.text]
  have hcut : (cut '/' (b.authority ++ b.path)).1 = b.authority :=
    cut_slash_authority b b.path_rooted
  rw [htext] at hctl ⊢
  rw [parseNoFragment_slashes b.scheme_letter b.scheme_chars, hctl, if_neg Bool.false_ne_true]
  simp only [cutQuery_queryText hq hforce, hcut, List.drop_left, ha, hpath, Option.bind_some,
    Option.map_some]

theorem mem_queryText {c : Char} (hw : Written u) (hc : c ∈ queryText u) :
    c ≠ '#' ∧ isCTL c = false := by
  unfold queryText at hc
  split at hc
  · rcases List.mem_cons.mp hc with rfl | hc
    · decide
    · exact hw.query c hc
  · cases hc

end RoundTrip

section Host

variable {readHost : Str → Option Str} {u : URL Authority} {host port : Str}

/-- The authority as it is written. -/
def authorityText (user : Option Userinfo) (hostPort : Str) : Str := userText user ++ hostPort

theorem mem_authorityText {user : Option Userinfo} {c : Char} (hh : HostName host)
    (hp : PortText port) (hc : c ∈ authorityText user (host ++ ':' :: port)) :
    c ≠ '/' ∧ c ≠ '?' ∧ c ≠ '#' ∧ isCTL c = false := by
  rcases List.mem_append.mp hc with hc | hc
  · cases user with
    | none => cases hc
    | some ui =>
        rcases List.mem_append.mp hc with hc | hc
        · rcases mem_userinfo_string hc with rfl | rfl | hstay
          · decide
          · decide
          · have hne := not_stays_user hstay
            exact ⟨hne.2.1, hne.2.2.1, hne.2.2.2.1, isCTL_of_range (range_of_stays hstay)⟩
        · obtain rfl := List.mem_singleton.mp hc
          decide
  · rcases mem_hostPort hh hp hc with rfl | hchar
    · decide
    · have hstay : shouldEscape .userPassword c = false := stays_of_isHostChar hchar
      have hne := not_stays_user hstay
      exact ⟨hne.2.1, hne.2.2.1, hne.2.2.2.1, isCTL_of_range (range_of_stays hstay)⟩

/-- **The authority is read back**: the user as it was, and the new host. -/
theorem readAuthority_authorityText (user : Option Userinfo) (hh : HostName host)
    (hp : PortText port)
    (hread : readHost (host ++ ':' :: port) = some (host ++ ':' :: port)) :
    readAuthority readHost (authorityText user (host ++ ':' :: port)) =
      some ⟨user, host ++ ':' :: port⟩ := by
  have hat : '@' ∉ host ++ ':' :: port := by
    intro hm
    rcases mem_hostPort hh hp hm with h | h
    · cases h
    · exact absurd h (by decide)
  cases user with
  | none =>
      rw [authorityText, userText, List.nil_append, readAuthority, cutLast_of_not_mem hat]
      simp only [hread, Option.map_some]
  | some ui =>
      have htext : authorityText (some ui) (host ++ ':' :: port) =
          ui.string ++ '@' :: (host ++ ':' :: port) := by
        simp [authorityText, userText]
      rw [htext, readAuthority, cutLast_append_cons hat]
      simp only [hread, readUserinfo_string, Option.bind_eq_bind, Option.bind_some]

/-- A plain host is written as it is. -/
theorem escape_host (hh : HostName host) (hp : PortText port) :
    escape .host (utf8 (host ++ ':' :: port)) = host ++ ':' :: port := by
  have hstays : ∀ c ∈ host ++ ':' :: port, shouldEscape .host c = false := by
    intro c hc
    rcases mem_hostPort hh hp hc with rfl | hchar
    · decide
    · exact stays_of_isHostChar hchar
  generalize host ++ ':' :: port = s at hstays
  induction s with
  | nil => rfl
  | cons c s ih =>
      obtain ⟨hc, hs⟩ := List.forall_mem_cons.mp hstays
      have hrange := range_of_stays hc
      have hbyte : String.utf8EncodeChar c = [UInt8.ofNat c.toNat] := by
        unfold String.utf8EncodeChar
        dsimp only
        rw [if_pos (by have : c.val.toNat = c.toNat := rfl; omega)]
        rfl
      have hchar : Char.ofNat (UInt8.ofNat c.toNat).toNat = c := by
        rw [UInt8.toNat_ofNat', Nat.mod_eq_of_lt (by omega), Char.ofNat_toNat]
      have hstep : escape .host (utf8 (c :: s)) = c :: escape .host (utf8 s) := by
        show escape .host (String.utf8EncodeChar c ++ utf8 s) = _
        rw [hbyte]
        show escapeOctet .host (UInt8.ofNat c.toNat) ++ escape .host (utf8 s) = _
        rw [escapeOctet, hchar, hc]
        rfl
      rw [hstep, ih hs]

/-- A URL with another host has the same scheme, user, path, query and fragment. -/
structure SameButHost (u v : URL Authority) (host : Str) : Prop where
  scheme : v.scheme = u.scheme
  authority : ∃ a, u.authority = some a ∧ v.authority = some ⟨a.user, host⟩
  path : unescape v.rawPath = unescape u.rawPath
  force : v.forceQuery = u.forceQuery
  query : v.rawQuery = u.rawQuery
  fragment : unescape v.rawFragment = unescape u.rawFragment

/-- **A URL with another host, written and read again.** -/
theorem parse_string {raw : Str} {a : Authority}
    (h : parse (readAuthority readHost) raw = some u) (hs : u.scheme ≠ [])
    (ha : u.authority = some a) (hh : HostName host) (hp : PortText port)
    (hread : readHost (host ++ ':' :: port) = some (host ++ ':' :: port)) :
    ∃ v, parse (readAuthority readHost) (string u ⟨a.user, host ++ ':' :: port⟩) = some v ∧
      SameButHost u v (host ++ ':' :: port) := by
  have hw := written_of_parse h hs (by rw [ha]; exact Option.some_ne_none a)
  obtain ⟨path, hpath⟩ := Option.isSome_iff_exists.mp hw.path
  obtain ⟨fragment, hfragment⟩ := Option.isSome_iff_exists.mp hw.fragment
  have hauth : ∀ c ∈ authorityText a.user (host ++ ':' :: port),
      c ≠ '/' ∧ c ≠ '?' ∧ c ≠ '#' ∧ isCTL c = false := fun c hc => mem_authorityText hh hp hc
  let b : Base :=
    { scheme := u.scheme
      authority := authorityText a.user (host ++ ':' :: port)
      path := escapedPath u.rawPath
      scheme_letter := hw.scheme_letter
      scheme_chars := hw.scheme_chars
      authority_free := fun c hc => ⟨(hauth c hc).1, (hauth c hc).2.1, (hauth c hc).2.2.1⟩
      path_rooted := escapedPath_rooted hw.rooted
      path_free := fun c hc => ⟨(mem_escapedPath hc).1, (mem_escapedPath hc).2.1⟩ }
  have htext : string u ⟨a.user, host ++ ':' :: port⟩ =
      b.text ++ queryText u ++ fragmentText u := by
    have hne : host ++ ':' :: port ≠ [] := by simp
    rw [string, if_pos (.inl hne), escape_host hh hp]
    simp [b, Base.text, authorityText]
  have hfree : ∀ c ∈ b.text ++ queryText u, c ≠ '#' ∧ isCTL c = false := by
    intro c hc
    rcases List.mem_append.mp hc with hc | hc
    · rcases List.mem_append.mp hc with hc | hc
      · rcases List.mem_append.mp hc with hc | hc
        · rcases List.mem_append.mp hc with hc | hc
          · exact free_of_isSchemeChar (hw.scheme_chars c hc)
          · have hall : ([':', '/', '/'].all fun d => decide (d ≠ '#' ∧ isCTL d = false)) = true :=
              by decide
            exact of_decide_eq_true (List.all_eq_true.mp hall c hc)
        · exact (hauth c hc).2.2
      · exact (mem_escapedPath hc).2
    · exact mem_queryText hw hc
  have hash : '#' ∉ b.text ++ queryText u := fun hm => (hfree _ hm).1 rfl
  have hctl : (b.text ++ queryText u).any isCTL = false :=
    List.any_eq_false.mpr fun c hc => by rw [(hfree c hc).2]; exact Bool.false_ne_true
  have hplain := parseNoFragment_queryText (u := u) b hctl
    (readAuthority_authorityText a.user hh hp hread) (unescape_escapedPath hpath) hw.force
  rw [htext, parse]
  cases hf : u.rawFragment with
  | nil =>
      rw [fragmentText, hf, if_neg (not_not.mpr rfl), List.append_nil, cut_of_not_mem hash, hplain]
      exact ⟨_, rfl, hw.scheme_lower, ⟨a, ha, rfl⟩, (unescape_escapedPath hpath).trans hpath.symm,
        rfl, rfl, by rw [hf]⟩
  | cons c f =>
      have hescaped := unescape_escapedFragment hfragment
      rw [fragmentText, if_pos (by rw [hf]; exact List.cons_ne_nil c f), cut_append_cons hash,
        hplain]
      simp only [hescaped, Option.isSome_some, if_true]
      exact ⟨_, rfl, hw.scheme_lower, ⟨a, ha, rfl⟩, (unescape_escapedPath hpath).trans hpath.symm,
        rfl, rfl, hescaped.trans hfragment.symm⟩

end Host

/-! ## 6. Another user -/

section User

variable {readHost : Str → Option Str} {scheme ui rest : Str} {x : Userinfo}

/-- What stands before the path, the query and the fragment. -/
def hostText (rest : Str) : Str := (cut '/' (cut '?' (cut '#' rest).1).1).1

/-- A URL with another user. -/
def withUser (x : Userinfo) (u : URL Authority) : URL Authority :=
  { u with authority := u.authority.map fun a => ⟨some x, a.host⟩ }

theorem prefix_cut_fst (c : Char) {s t : Str} (h : s <+: t) : (cut c s).1 <+: (cut c t).1 := by
  obtain ⟨u, rfl⟩ := h
  by_cases hm : c ∈ s
  · obtain ⟨a, b, ha, rfl⟩ := exists_cut hm
    rw [List.append_assoc, List.cons_append, cut_append_cons ha, cut_append_cons ha]
  · rw [cut_append hm, cut_of_not_mem hm]
    exact List.prefix_append s _

theorem prefix_hostText {s t : Str} (h : s <+: t) : hostText s <+: hostText t :=
  prefix_cut_fst '/' (prefix_cut_fst '?' (prefix_cut_fst '#' h))

theorem free_of_isUserinfoChar {c : Char} (h : isUserinfoChar c = true) :
    c ≠ '/' ∧ c ≠ '?' ∧ c ≠ '#' ∧ isCTL c = false := by
  refine ⟨?_, ?_, ?_, ?_⟩
  · rintro rfl
    exact absurd h (by decide)
  · rintro rfl
    exact absurd h (by decide)
  · rintro rfl
    exact absurd h (by decide)
  · rw [isUserinfoChar, Bool.or_eq_true] at h
    rcases h with h | h
    · have hstay : shouldEscape .path c = false := stays_of_alnum h
      exact isCTL_of_range (range_of_stays hstay)
    · have hall : ("-._:~!$&'()*+,;=%@".toList.all fun d => !isCTL d) = true := by decide
      simpa using List.all_eq_true.mp hall c (of_decide_eq_true h)

theorem free_of_readUserinfo (hui : readUserinfo ui = some x) :
    ∀ c ∈ ui ++ ['@'], c ≠ '/' ∧ c ≠ '?' ∧ c ≠ '#' ∧ isCTL c = false := by
  intro c hc
  rcases List.mem_append.mp hc with hc | hc
  · unfold readUserinfo at hui
    split at hui
    · rename_i hall
      exact free_of_isUserinfoChar (List.all_eq_true.mp hall c hc)
    · cases hui
  · obtain rfl := List.mem_singleton.mp hc
    decide

theorem readAuthority_user (hui : readUserinfo ui = some x) {host : Str} (hat : '@' ∉ host) :
    readAuthority readHost (ui ++ '@' :: host) =
      (readAuthority readHost host).map fun a => ⟨some x, a.host⟩ := by
  rw [readAuthority, readAuthority, cutLast_append_cons hat, cutLast_of_not_mem hat]
  simp only [hui, Option.bind_eq_bind, Option.bind_some, Option.map_map]
  cases readHost host <;> rfl

/-- **A URL with a user** is read as the one without, with the user added. -/
theorem parse_userinfo (hletter : ∃ c s, scheme = c :: s ∧ isLetter c = true)
    (hchars : ∀ c ∈ scheme, isSchemeChar c = true) (hui : readUserinfo ui = some x)
    (hat : '@' ∉ hostText rest) :
    parse (readAuthority readHost) (scheme ++ ':' :: '/' :: '/' :: (ui ++ '@' :: rest)) =
      (parse (readAuthority readHost) (scheme ++ ':' :: '/' :: '/' :: rest)).map (withUser x) := by
  have hfree := free_of_readUserinfo hui
  have htext : ∀ t : Str, ui ++ '@' :: t = (ui ++ ['@']) ++ t := fun t => by simp
  have hplain : ∀ t : Str, '@' ∉ (cut '/' (cut '?' t).1).1 →
      parseNoFragment (readAuthority readHost)
          (scheme ++ ':' :: '/' :: '/' :: ((ui ++ ['@']) ++ t)) =
        (parseNoFragment (readAuthority readHost) (scheme ++ ':' :: '/' :: '/' :: t)).map
          (withUser x) := by
    intro t ht
    have hctl : (scheme ++ ':' :: '/' :: '/' :: ((ui ++ ['@']) ++ t)).any isCTL =
        (scheme ++ ':' :: '/' :: '/' :: t).any isCTL := by
      have hno : (ui ++ ['@']).any isCTL = false :=
        List.any_eq_false.mpr fun c hc => by rw [(hfree c hc).2.2.2]; exact Bool.false_ne_true
      have happ : ∀ r : Str, (scheme ++ ':' :: '/' :: '/' :: r).any isCTL =
          ((scheme ++ [':', '/', '/']).any isCTL || r.any isCTL) := fun r => by
        rw [← List.any_append]
        simp
      have hskip : ((ui ++ ['@']) ++ t).any isCTL = t.any isCTL := by
        rw [List.any_append, hno, Bool.false_or]
      rw [happ, happ t, hskip]
    rw [parseNoFragment_slashes hletter hchars, parseNoFragment_slashes hletter hchars, hctl]
    rw [cutQuery_append fun hm => (hfree _ hm).2.1 rfl]
    dsimp only
    rw [cut_append fun hm => (hfree _ hm).1 rfl]
    dsimp only
    rw [List.length_append, ← List.drop_drop, List.drop_left, ← htext, readAuthority_user hui]
    · split
      · rfl
      · cases readAuthority readHost (cut '/' (cutQuery t).1).1 with
        | none => rfl
        | some a =>
            cases unescape ((cutQuery t).1.drop (cut '/' (cutQuery t).1).1.length) <;> rfl
    · rw [cutQuery_fst]
      exact ht
  rw [parse_slashes hchars, parse_slashes hchars, htext,
    cut_append fun hm => (hfree _ hm).2.2.1 rfl]
  dsimp only
  rw [hplain _ hat]
  cases parseNoFragment (readAuthority readHost)
      (scheme ++ ':' :: '/' :: '/' :: (cut '#' rest).1) with
  | none => rfl
  | some u =>
      rw [Option.map_some, Option.bind_some, Option.bind_some]
      cases (cut '#' rest).2 with
      | none => rfl
      | some f => cases hf : unescape f <;> simp [hf, withUser]

end User

end DevDashboard.Lib.NetUrl
