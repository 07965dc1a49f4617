/-
  File:      DevDashboard/Lib/Like.lean
  Subject:   SQL `LIKE` WITH BACKSLASH ESCAPE.

  A pattern is read into tokens (`parse`: `%` any run, `_` any one character, a backslash takes
  the next character literally, a backslash at the end is malformed), and tokens are matched
  against a text (`matchToks`).

  * `matchToks_append`, `matchToks_lit`, `matchToks_any` -- matching a concatenation;
  * `parse_append`, `parse_of_plain` -- reading a concatenation, reading text without `%`, `_`
    and backslash;
  * `like_plain_append` -- a plain text followed by a pattern matches as the text itself does;
  * `like_escape_append` -- so does any text, once it is escaped;
  * `shrink` -- the shortest text a pattern matches; it begins with the pattern's own text only
    if that is plain (`plain_of_shrink`).
-/
import Mathlib.Data.List.Basic
import Mathlib.Data.List.Infix
import Mathlib.Tactic.Cases

namespace DevDashboard.Lib.Like

/-! ## 1. Tokens -/

/-- One element of a pattern over the alphabet `α`. -/
inductive Tok (α : Type) where
  /-- `%` -/
  | any
  /-- `_` -/
  | one
  | lit (a : α)
  deriving DecidableEq

section Match

variable {α : Type} [DecidableEq α]

/-- Does the text match the tokens from end to end? -/
def matchToks : List (Tok α) → List α → Bool
  | [], s => s.isEmpty
  | .any :: p, s => s.tails.any (matchToks p)
  | .one :: _, [] => false
  | .one :: p, _ :: s => matchToks p s
  | .lit _ :: _, [] => false
  | .lit a :: p, b :: s => b == a && matchToks p s

@[simp] theorem matchToks_nil (s : List α) : matchToks [] s = true ↔ s = [] := by
  cases s <;> simp [matchToks]

@[simp] theorem matchToks_any (p : List (Tok α)) (s : List α) :
    matchToks (.any :: p) s = true ↔ ∃ u v, s = u ++ v ∧ matchToks p v = true := by
  simp only [matchToks, List.any_eq_true, List.mem_tails]
  constructor
  · rintro ⟨v, ⟨u, rfl⟩, h⟩
    exact ⟨u, v, rfl, h⟩
  · rintro ⟨u, v, rfl, h⟩
    exact ⟨v, ⟨u, rfl⟩, h⟩

@[simp] theorem matchToks_one (p : List (Tok α)) (s : List α) :
    matchToks (.one :: p) s = true ↔ ∃ a v, s = a :: v ∧ matchToks p v = true := by
  cases s <;> simp [matchToks]

@[simp] theorem matchToks_lit (a : α) (p : List (Tok α)) (s : List α) :
    matchToks (.lit a :: p) s = true ↔ ∃ v, s = a :: v ∧ matchToks p v = true := by
  cases s with
  | nil => simp [matchToks]
  | cons b s =>
      simp only [matchToks, Bool.and_eq_true, beq_iff_eq, List.cons.injEq]
      constructor
      · rintro ⟨rfl, h⟩
        exact ⟨s, ⟨rfl, rfl⟩, h⟩
      · rintro ⟨v, ⟨rfl, rfl⟩, h⟩
        exact ⟨rfl, h⟩

/-- **A concatenated pattern matches a concatenated text.** -/
theorem matchToks_append (p q : List (Tok α)) (s : List α) :
    matchToks (p ++ q) s = true ↔
      ∃ u v, s = u ++ v ∧ matchToks p u = true ∧ matchToks q v = true := by
  induction p generalizing s with
  | nil =>
      constructor
      · exact fun h => ⟨[], s, rfl, by simp, h⟩
      · rintro ⟨u, v, rfl, hu, hv⟩
        rw [(matchToks_nil u).mp hu]
        exact hv
  | cons t p ih =>
      cases t with
      | any =>
          simp only [List.cons_append, matchToks_any, ih]
          constructor
          · rintro ⟨x, _, rfl, u, v, rfl, hu, hv⟩
            exact ⟨x ++ u, v, by simp, ⟨x, u, rfl, hu⟩, hv⟩
          · rintro ⟨_, v, rfl, ⟨x, u, rfl, hu⟩, hv⟩
            exact ⟨x, u ++ v, by simp, u, v, rfl, hu, hv⟩
      | one =>
          simp only [List.cons_append, matchToks_one, ih]
          constructor
          · rintro ⟨a, _, rfl, u, v, rfl, hu, hv⟩
            exact ⟨a :: u, v, rfl, ⟨a, u, rfl, hu⟩, hv⟩
          · rintro ⟨_, v, rfl, ⟨a, u, rfl, hu⟩, hv⟩
            exact ⟨a, u ++ v, rfl, u, v, rfl, hu, hv⟩
      | lit a =>
          simp only [List.cons_append, matchToks_lit, ih]
          constructor
          · rintro ⟨_, rfl, u, v, rfl, hu, hv⟩
            exact ⟨a :: u, v, rfl, ⟨u, rfl, hu⟩, hv⟩
          · rintro ⟨_, v, rfl, ⟨u, rfl, hu⟩, hv⟩
            exact ⟨u ++ v, rfl, u, v, rfl, hu, hv⟩

/-- Literals match their own text. -/
theorem matchToks_map_lit (u s : List α) : matchToks (u.map .lit) s = true ↔ s = u := by
  induction u generalizing s with
  | nil => simp
  | cons a u ih =>
      simp only [List.map_cons, matchToks_lit, ih]
      constructor
      · rintro ⟨v, rfl, rfl⟩
        rfl
      · rintro rfl
        exact ⟨u, rfl, rfl⟩

end Match

/-! ## 2. Reading a pattern -/

/-- The token an unescaped character stands for. -/
def tok (c : Char) : Tok Char :=
  if c = '%' then .any else if c = '_' then .one else .lit c

/-- Read a pattern; `esc` says whether the character before was an escaping backslash. -/
def parseFrom : Bool → List Char → Option (List (Tok Char))
  | false, [] => some []
  | true, [] => none
  | true, c :: p => (parseFrom false p).map (.lit c :: ·)
  | false, c :: p =>
      if c = '\\' then parseFrom true p else (parseFrom false p).map (tok c :: ·)

/-- Read a pattern: `none` if it ends in an escaping backslash. -/
def parse (p : List Char) : Option (List (Tok Char)) := parseFrom false p

/-- **`s LIKE p ESCAPE '\'`.** -/
def like (p s : List Char) : Bool :=
  match parse p with
  | some ts => matchToks ts s
  | none => false

/-- The characters with a meaning in a pattern. -/
def isMeta (c : Char) : Bool := c == '%' || c == '_' || c == '\\'

/-- A text that reads as itself. -/
def Plain (s : List Char) : Prop := ∀ c ∈ s, isMeta c = false

instance (s : List Char) : Decidable (Plain s) := List.decidableBAll _ s

theorem plain_append {s t : List Char} : Plain (s ++ t) ↔ Plain s ∧ Plain t := by
  simp only [Plain, List.forall_mem_append]

theorem isMeta_eq_false {c : Char} : isMeta c = false ↔ c ≠ '%' ∧ c ≠ '_' ∧ c ≠ '\\' := by
  simp [isMeta, and_assoc]

/-- **A well-formed pattern reads on where it ends.** -/
theorem parseFrom_append {b : Bool} {p : List Char} {ts : List (Tok Char)}
    (h : parseFrom b p = some ts) (q : List Char) :
    parseFrom b (p ++ q) = (parseFrom false q).map (ts ++ ·) := by
  induction p generalizing b ts with
  | nil =>
      cases b with
      | false =>
          cases h
          simp
      | true => cases h
  | cons c p ih =>
      cases b with
      | true =>
          simp only [parseFrom, Option.map_eq_some_iff] at h
          obtain ⟨us, hu, rfl⟩ := h
          simp [parseFrom, ih hu, Function.comp_def]
      | false =>
          by_cases hc : c = '\\'
          · simp only [parseFrom, hc, if_true] at h
            simp [parseFrom, hc, ih h]
          · simp only [parseFrom, hc, if_false, Option.map_eq_some_iff] at h
            obtain ⟨us, hu, rfl⟩ := h
            simp [parseFrom, hc, ih hu, Function.comp_def]

theorem parse_append {p q : List Char} {ts us : List (Tok Char)} (hp : parse p = some ts)
    (hq : parse q = some us) : parse (p ++ q) = some (ts ++ us) := by
  rw [parse, parseFrom_append hp, ← parse, hq]
  rfl

/-- Plain text reads as its own literals. -/
theorem parse_of_plain {s : List Char} (h : Plain s) : parse s = some (s.map .lit) := by
  induction s with
  | nil => rfl
  | cons c s ih =>
      obtain ⟨h1, h2, h3⟩ := isMeta_eq_false.mp (h c List.mem_cons_self)
      have hs := ih fun d hd => h d (List.mem_cons_of_mem c hd)
      rw [parse] at hs ⊢
      simp [parseFrom, h3, hs, tok, h1, h2]

/-- **Plain text in front of a pattern matches itself.** -/
theorem like_plain_append {s p : List Char} (h : Plain s) (k : List Char) :
    like (s ++ p) k = true ↔ ∃ v, k = s ++ v ∧ like p v = true := by
  cases hp : parse p with
  | none =>
      have : parse (s ++ p) = none := by
        rw [parse, parseFrom_append (parse_of_plain h), ← parse, hp]
        rfl
      simp [like, this, hp]
  | some ts =>
      simp only [like, parse_append (parse_of_plain h) hp, hp, matchToks_append,
        matchToks_map_lit]
      constructor
      · rintro ⟨u, v, rfl, rfl, hv⟩
        exact ⟨v, rfl, hv⟩
      · rintro ⟨v, rfl, hv⟩
        exact ⟨s, v, rfl, rfl, hv⟩

/-- A backslash in front of every character with a meaning. -/
def escape (s : List Char) : List Char :=
  s.flatMap fun c => if c = '\\' ∨ c = '%' ∨ c = '_' then ['\\', c] else [c]

/-- **An escaped text reads as its own literals.** -/
theorem parse_escape (s : List Char) : parse (escape s) = some (s.map .lit) := by
  induction s with
  | nil => rfl
  | cons c s ih =>
      have hs : escape (c :: s) =
          (if c = '\\' ∨ c = '%' ∨ c = '_' then ['\\', c] else [c]) ++ escape s := rfl
      rw [hs]
      split
      · exact @parse_append ['\\', c] (escape s) [.lit c] _ rfl ih
      · rename_i hc
        obtain ⟨h3, h1, h2⟩ := not_or.mp hc |>.imp_right not_or.mp
        have hplain : Plain [c] := by simpa [Plain] using isMeta_eq_false.mpr ⟨h1, h2, h3⟩
        exact parse_append (parse_of_plain hplain) ih

/-- **An escaped text in front of a pattern matches itself.** -/
theorem like_escape_append {s p : List Char} {ts : List (Tok Char)} (hp : parse p = some ts)
    (k : List Char) : like (escape s ++ p) k = true ↔ ∃ v, k = s ++ v ∧ like p v = true := by
  simp only [like, parse_append (parse_escape s) hp, hp, matchToks_append, matchToks_map_lit]
  constructor
  · intro ⟨u, v, hk, hu, hv⟩
    exact ⟨v, hu ▸ hk, hv⟩
  · intro ⟨v, hk, hv⟩
    exact ⟨s, v, hk, rfl, hv⟩

/-- A pattern behind `%` matches wherever it matches the rest. -/
theorem like_percent_append {p : List Char} (u : List Char) {v : List Char}
    (h : like p v = true) : like ('%' :: p) (u ++ v) = true := by
  cases hp : parse p with
  | none => simp [like, hp] at h
  | some ts =>
      have hq : parse ('%' :: p) = some (.any :: ts) := @parse_append ['%'] p [.any] ts rfl hp
      simp only [like, hp] at h
      simp only [like, hq]
      exact (matchToks_any _ _).mpr ⟨u, v, rfl, h⟩

/-- A pattern that ends in `%` matches the texts that begin with a match of the rest. -/
theorem like_append_percent {p : List Char} {ts : List (Tok Char)} (hp : parse p = some ts)
    (k : List Char) :
    like (p ++ ['%']) k = true ↔ ∃ u v, k = u ++ v ∧ matchToks ts u = true := by
  have hq : parse ['%'] = some [.any] := rfl
  simp only [like, parse_append hp hq, matchToks_append, matchToks_any, matchToks_nil]
  constructor
  · rintro ⟨u, v, rfl, hu, _⟩
    exact ⟨u, v, rfl, hu⟩
  · rintro ⟨u, v, rfl, hu⟩
    exact ⟨u, v, rfl, hu, v, [], by simp, rfl⟩

/-- Two characters other than a backslash close every pattern. -/
theorem exists_parse_of_ends {c d : Char} (hc : c ≠ '\\') (hd : d ≠ '\\') (b : Bool)
    (u : List Char) : ∃ ts, parseFrom b (u ++ [c, d]) = some ts := by
  induction u generalizing b with
  | nil => cases b <;> simp [parseFrom, hc, hd]
  | cons x u ih =>
      cases b with
      | true =>
          obtain ⟨ts, h⟩ := ih false
          exact ⟨.lit x :: ts, by simp [parseFrom, h]⟩
      | false =>
          by_cases hx : x = '\\'
          · obtain ⟨ts, h⟩ := ih true
            exact ⟨ts, by simp [parseFrom, hx, h]⟩
          · obtain ⟨ts, h⟩ := ih false
            exact ⟨tok x :: ts, by simp [parseFrom, hx, h]⟩

/-- A pattern that ends in a plain character ends in that literal, escaped or not. -/
theorem parse_snoc {c : Char} (hc : isMeta c = false) {b : Bool} {u : List Char}
    {ts : List (Tok Char)} (h : parseFrom b (u ++ [c]) = some ts) :
    ∃ us, ts = us ++ [.lit c] := by
  obtain ⟨h1, h2, h3⟩ := isMeta_eq_false.mp hc
  induction u generalizing b ts with
  | nil =>
      cases b with
      | true =>
          cases h
          exact ⟨[], rfl⟩
      | false =>
          simp only [List.nil_append, parseFrom, h3, if_false, tok, h1, h2] at h
          cases h
          exact ⟨[], rfl⟩
  | cons x u ih =>
      cases b with
      | true =>
          obtain ⟨us, hu, rfl⟩ := Option.map_eq_some_iff.mp h
          obtain ⟨vs, rfl⟩ := ih hu
          exact ⟨.lit x :: vs, rfl⟩
      | false =>
          rw [List.cons_append, parseFrom] at h
          split at h
          · exact ih h
          · obtain ⟨us, hu, rfl⟩ := Option.map_eq_some_iff.mp h
            obtain ⟨vs, rfl⟩ := ih hu
            exact ⟨tok x :: vs, rfl⟩

/-- **A pattern `p%` whose `p` ends in the plain character `c` cannot tell apart two texts that
    differ only after their last `c`.** -/
theorem like_percent_of_not_mem {c : Char} (hc : isMeta c = false) {p : List Char}
    {ts : List (Tok Char)} (hp : parse (p ++ [c]) = some ts) {k s : List Char} (hs : c ∉ s) :
    like (p ++ [c] ++ ['%']) (k ++ s) = true ↔ like (p ++ [c] ++ ['%']) k = true := by
  rw [like_append_percent hp, like_append_percent hp]
  constructor
  · rintro ⟨u, v, he, hu⟩
    obtain ⟨us, rfl⟩ := parse_snoc hc hp
    obtain ⟨w, x, rfl, _, hx⟩ := (matchToks_append _ _ _).mp hu
    obtain ⟨y, rfl, hy⟩ := (matchToks_lit _ _ _).mp hx
    rw [(matchToks_nil y).mp hy] at he hu
    rcases List.append_eq_append_iff.mp he with ⟨z, hz, rfl⟩ | ⟨z, hz, rfl⟩
    · -- a match that ends inside `s` would put `c` there
      cases z with
      | nil => exact ⟨w ++ [c], [], by simpa using hz.symm, hu⟩
      | cons d z =>
          have hm : c ∈ d :: z := by
            have hl := congrArg List.getLast? hz
            rw [List.getLast?_append, List.getLast?_append] at hl
            exact List.mem_of_getLast? (by simpa using hl.symm)
          exact absurd (List.mem_append_left v hm) hs
    · exact ⟨_, z, hz, hu⟩
  · rintro ⟨u, v, rfl, hu⟩
    exact ⟨u, v ++ s, by simp, hu⟩

/-! ## 3. The shortest match -/

/-- The shortest text the tokens match, `x` for every `_`. -/
def shrink : List (Tok Char) → List Char
  | [] => []
  | .any :: p => shrink p
  | .one :: p => 'x' :: shrink p
  | .lit a :: p => a :: shrink p

theorem matchToks_shrink (p : List (Tok Char)) : matchToks p (shrink p) = true := by
  induction p with
  | nil => rfl
  | cons t p ih =>
      cases t with
      | any => exact (matchToks_any _ _).mpr ⟨[], shrink p, rfl, ih⟩
      | one => exact ih
      | lit a => simpa [shrink] using ih

theorem shrink_length_le {b : Bool} {p : List Char} {ts : List (Tok Char)}
    (h : parseFrom b p = some ts) : (shrink ts).length ≤ p.length := by
  induction p generalizing b ts with
  | nil =>
      cases b with
      | false => cases h; exact Nat.le_refl 0
      | true => cases h
  | cons c p ih =>
      cases b with
      | true =>
          obtain ⟨us, hu, rfl⟩ := Option.map_eq_some_iff.mp h
          exact Nat.succ_le_succ (ih hu)
      | false =>
          rw [parseFrom] at h
          split at h
          · exact Nat.le_succ_of_le (ih h)
          · obtain ⟨us, hu, rfl⟩ := Option.map_eq_some_iff.mp h
            have := ih hu
            unfold tok
            split_ifs <;> simp only [shrink, List.length_cons] <;> omega

/-- A pattern whose shortest match is its own text is plain: a backslash and a `%` make the match
    shorter than the text, a `_` makes it differ. -/
theorem plain_of_shrink {p : List Char} {ts : List (Tok Char)} (h : parse p = some ts)
    (he : shrink ts = p) : Plain p := by
  induction p generalizing ts with
  | nil => exact fun c hc => absurd hc List.not_mem_nil
  | cons c p ih =>
      have hlen := congrArg List.length he
      rw [parse, parseFrom] at h
      split at h
      · have := shrink_length_le h
        simp only [List.length_cons] at hlen
        omega
      · rename_i hc
        obtain ⟨us, hu, rfl⟩ := Option.map_eq_some_iff.mp h
        unfold tok at he hlen
        split_ifs at he hlen with h1 h2
        · have := shrink_length_le hu
          simp only [shrink, List.length_cons] at hlen
          omega
        · subst h2
          cases he
        · simp only [shrink, List.cons.injEq, true_and] at he
          intro d hd
          rcases List.mem_cons.mp hd with rfl | hd
          · exact isMeta_eq_false.mpr ⟨h1, h2, hc⟩
          · exact ih hu he d hd

/-- **A pattern with a meta-character matches a text that does not begin with it.** -/
theorem exists_like_not_prefix {p : List Char} {ts : List (Tok Char)} (h : parse p = some ts)
    (hp : ¬ Plain p) : ∃ k, like (p ++ ['%']) k = true ∧ ¬ p <+: k := by
  refine ⟨shrink ts, (like_append_percent h _).mpr ⟨shrink ts, [], by simp, matchToks_shrink ts⟩,
    fun hpre => hp (plain_of_shrink h ?_)⟩
  exact (hpre.eq_of_length_le (shrink_length_le h)).symm

end DevDashboard.Lib.Like
