/-
  File:      DevDashboard/Web/Validation.lean
  Subject:   THE CHECKS OF THE BUILDERS' FIELDS (lib/validation.ts).

  A check returns the text of its error, `none` for a value that passes. The regular expressions
  are matched group by group, with backtracking where a group is optional.

  * `exists_letter_of_valid_name` -- a resource name begins with a letter, so that it is not
    `__proto__`;
  * `not_blank_of_valid_duration` -- a duration that is not empty is not blank.
-/
import DevDashboard.Lib.JsObject
import DevDashboard.Web.YamlEmit

namespace DevDashboard.Web

open Lib
open Replay (isJsSpace)

/-- `s.trim()`. -/
def trim (s : Str) : Str := ((s.dropWhile isJsSpace).reverse.dropWhile isJsSpace).reverse

/-! ## 1. Durations -/

/-- The optional groups of `DURATION_RE`: what may follow the digits of each. -/
def durationGroups : List (List Str) :=
  [["h"], ["m"], ["s"], ["ms"], ["us", "µs"], ["ns"]].map fun g => g.map String.toList

/-- `UNIT_ORDER`. -/
def unitOrder : List Str := ["h", "m", "s", "ms", "us", "µs", "ns"].map String.toList

/-- `\d+` and a unit, off the front of a text. -/
def matchGroup (units : List Str) (s : Str) : Option (Str × Str) :=
  let digits := s.takeWhile Char.isDigit
  let rest := s.dropWhile Char.isDigit
  if digits = [] then none
  else units.findSome? fun u =>
    if Str.hasPrefix rest u then some (digits ++ u, rest.drop u.length) else none

/-- `value.match(DURATION_RE)`: what each group matched. -/
def matchGroups : List (List Str) → Str → Option (List (Option Str))
  | [], s => if s = [] then some [] else none
  | g :: gs, s =>
      ((matchGroup g s).bind fun m => (matchGroups gs m.2).map (some m.1 :: ·)).or
        ((matchGroups gs s).map (none :: ·))

def endsWith (s suffix : Str) : Bool := suffix.isSuffixOf s

/-- The unit of a group. -/
def unitOf (m : Str) : Str :=
  if endsWith m "ms".toList then "ms".toList
  else if endsWith m "us".toList then "us".toList
  else if endsWith m "µs".toList then "µs".toList
  else if endsWith m "ns".toList then "ns".toList
  else (unitOrder.find? (endsWith m)).getD []

/-- `UNIT_ORDER.indexOf(unit)`. -/
def unitIndex (unit : Str) : Int := if unit ∈ unitOrder then unitOrder.idxOf unit else -1

/-- The loop over the groups: each unit has to come after the last one. -/
def unitsAscend : Int → List (Option Str) → Bool
  | _, [] => true
  | last, none :: ms => unitsAscend last ms
  | last, some m :: ms =>
      let idx := unitIndex (unitOf m)
      if idx ≤ last then false else unitsAscend idx ms

def durationError : Str :=
  "Enter a Go duration like 30s, 5m, 1h30m (units in order h→m→s→ms→us→ns, no repeats)".toList

/-- `validateGoDuration`. -/
def validateGoDuration (value : Str) : Option Str :=
  match matchGroups durationGroups value with
  | none => some durationError
  | some matched => if unitsAscend (-1) matched then none else some durationError

/-! ## 2. Names, status codes, integers -/

def isAsciiLetter (c : Char) : Bool := ('a' ≤ c && c ≤ 'z') || ('A' ≤ c && c ≤ 'Z')

/-- `validateResourceName`. -/
def validateResourceName (value : Str) : Option Str :=
  if value = [] then some "Name is required".toList
  else if ' ' ∈ value then some "Name cannot contain spaces".toList
  else if value.any fun c => !(isAsciiLetter c || c.isDigit || c == '-') then
    some "Only alphanumeric characters and hyphens are allowed".toList
  else if value.head?.any fun c => !isAsciiLetter c then
    some "Name must start with a letter".toList
  else none

/-- `\d{1,3}` matches the whole text. -/
def isCode (s : Str) : Bool := s.all Char.isDigit && decide (1 ≤ s.length) && decide (s.length ≤ 3)

/-- `/^\d{1,3}(-\d{1,3})?$/`. -/
def isCodeRange (s : Str) : Bool :=
  isCode (s.takeWhile (· ≠ '-')) &&
    match s.dropWhile (· ≠ '-') with
    | [] => true
    | _ :: rest => isCode rest

/-- `validateStatusCodes`. -/
def validateStatusCodes (value : Str) : Option Str :=
  if isBlank value then none
  else if ((Str.split [','] value).map trim).all isCodeRange then none
  else some "Use comma-separated codes or ranges, e.g. 200,404,500-503".toList

/-- `/^-?\d+$/`. -/
def isInteger (s : Str) : Bool :=
  let digits := Str.trimPrefix s ['-']
  decide (digits ≠ []) && digits.all Char.isDigit

/-- `integerError`. -/
def integerError (value : Str) : Option Str :=
  if isBlank value then none
  else if isInteger (trim value) then none else some "Must be an integer".toList

/-! ## 3. What passes -/

/-- No blank stands between `0` and `z`. -/
theorem not_space_of_toNat {c : Char} (hge : 48 ≤ c.toNat) (hlt : c.toNat < 123) :
    isJsSpace c = false := by
  have hall : ∀ n < 123, 48 ≤ n → isJsSpace (Char.ofNat n) = false := by decide
  have := hall c.toNat hlt hge
  rwa [Char.ofNat_toNat] at this

theorem not_space_of_isDigit {c : Char} (h : c.isDigit = true) : isJsSpace c = false := by
  have h9 : '9'.toNat = 57 := rfl
  obtain ⟨hge, hle⟩ := Char.isDigit_iff_toNat.mp h
  exact not_space_of_toNat hge (by omega)

/-- A resource name begins with a letter. -/
theorem exists_letter_of_valid_name {name : Str} (h : validateResourceName name = none) :
    ∃ c rest, name = c :: rest ∧ isAsciiLetter c = true := by
  cases name with
  | nil => exact absurd h (by simp [validateResourceName])
  | cons c rest =>
      refine ⟨c, rest, rfl, ?_⟩
      simp only [validateResourceName] at h
      split at h
      · exact absurd h (by simp)
      · split at h
        · exact absurd h (by simp)
        · split at h
          · exact absurd h (by simp)
          · split at h
            · exact absurd h (by simp)
            · next hl => simpa using hl

theorem ne_proto_of_valid_name {name : Str} (h : validateResourceName name = none) :
    name ≠ Obj.protoName := by
  obtain ⟨c, rest, rfl, hc⟩ := exists_letter_of_valid_name h
  intro hp
  obtain ⟨rfl, -⟩ := List.cons.inj hp
  exact absurd hc (by decide)

/-- A text that the groups match is empty or begins with a digit. -/
theorem head_of_matchGroups {gs : List (List Str)} {s : Str} {ms : List (Option Str)}
    (h : matchGroups gs s = some ms) : s = [] ∨ ∃ c ∈ s.head?, c.isDigit = true := by
  induction gs generalizing ms with
  | nil =>
      simp only [matchGroups] at h
      split at h
      · next hs => exact .inl hs
      · exact absurd h (by simp)
  | cons g gs ih =>
      rw [matchGroups, Option.or_eq_some_iff] at h
      rcases h with h | ⟨-, h⟩
      · obtain ⟨m, hm, -⟩ := Option.bind_eq_some_iff.mp h
        simp only [matchGroup] at hm
        split at hm
        · exact absurd hm (by simp)
        · next hd =>
            cases s with
            | nil => exact .inl rfl
            | cons c s =>
                refine .inr ⟨c, rfl, ?_⟩
                by_contra hc
                exact hd (by rw [List.takeWhile_cons, if_neg hc])
      · obtain ⟨ms', hms', -⟩ := Option.map_eq_some_iff.mp h
        exact ih hms'

theorem not_blank_of_valid_duration {value : Str} (hne : value ≠ [])
    (h : validateGoDuration value = none) : isBlank value = false := by
  cases hm : matchGroups durationGroups value with
  | none => simp [validateGoDuration, hm] at h
  | some ms =>
      obtain ⟨c, hc, hd⟩ := (head_of_matchGroups hm).resolve_left hne
      cases value with
      | nil => exact absurd rfl hne
      | cons d value =>
          obtain rfl : d = c := by simpa using hc
          simp [isBlank, not_space_of_isDigit hd]

end DevDashboard.Web
