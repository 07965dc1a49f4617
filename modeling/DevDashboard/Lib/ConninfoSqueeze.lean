/-
  File:      DevDashboard/Lib/ConninfoSqueeze.lean
  Subject:   CONNECTION STRINGS WHOSE WHITE SPACE IS SQUEEZED.

  A program that does not know about quotes may cut a connection string at its white space and join
  the pieces with single blanks. `squeeze` does that character by character. Its white space may be
  more than what libpq takes for blanks. The text and the squeezed one are read side by side: where
  the white space outside quotes is tidy, the reader goes the same way in both, and only values
  differ.

  * `run_squeeze` -- the reader goes the same way;
  * `parseFrom_squeeze` -- **the same names, and of each name the same value exactly if the white
    space in the text of that value is kept**.
-/
import DevDashboard.Lib.Conninfo

namespace DevDashboard.Lib.Conninfo

/-! ## 1. Squeezing -/

section Squeeze

variable (space : Char → Bool)

/-- Each stretch of white space as one blank; `b`: none, because there was white space just
    before. -/
def squeeze : Bool → Str → Str
  | _, [] => []
  | b, c :: s =>
      if space c then if b then squeeze true s else ' ' :: squeeze true s
      else c :: squeeze false s

/-- Whether there is white space just behind a text. -/
def behind (b : Bool) (s : Str) : Bool := (s.getLast?.map space).getD b

/-- White space `c` where the reader is at `σ`, with `r` behind it. Outside quotes it is what libpq
    takes for a blank, or it stands alone behind a backslash. -/
def TidyAt : State → Char → Str → Prop
  | .value .quoted _ _, _, _ => True
  | .value .quotedEscaped _ _, _, _ => True
  | .value .escaped _ _, _, r => ∃ d r', r = d :: r' ∧ space d = false
  | _, c, _ => isBlank c = true

/-- All white space of a text. -/
def Tidy (σ : State) (s : Str) : Prop :=
  ∀ p c r l τ, s = p ++ c :: r → space c = true → run σ p = some (l, τ) → TidyAt space τ c r

/-- The reader is in the value of `k`, between quotes or behind a backslash. -/
def Guarded (k : Str) : State → Prop
  | .value .plain _ _ => False
  | .value _ n _ => n = k
  | _ => False

/-- White space `c`, where it is part of a value of `k`, is a single blank. -/
def KeptAt (k : Str) (b : Bool) (σ : State) (c : Char) : Prop :=
  space c = true → Guarded k σ → c = ' ' ∧ b = false

/-- **The white space in the value of `k` is kept**: it is single blanks, if `k` is not set again
    behind it. -/
def Kept (k : Str) (b : Bool) (σ : State) (s : Str) : Prop :=
  ∀ p c r l τ m, s = p ++ c :: r → run σ p = some (l, τ) → parseFrom τ (c :: r) = some m →
    k ∉ m.tail.map Prod.fst → KeptAt space k (behind space b p) τ c

end Squeeze

section Read

variable {space : Char → Bool} {σ σ' τ : State} {c : Char} {s t : Str} {b : Bool} {k n : Str}

theorem squeeze_cons_space (h : space c = true) :
    squeeze space true (c :: s) = squeeze space true s ∧
      squeeze space false (c :: s) = ' ' :: squeeze space true s := by
  constructor <;> simp [squeeze, h]

theorem squeeze_cons (h : space c = false) : squeeze space b (c :: s) = c :: squeeze space false s := by
  simp [squeeze, h]

theorem behind_cons : behind space b (c :: s) = behind space (space c) s := by
  cases s with
  | nil => rfl
  | cons d s =>
      unfold behind
      rw [List.getLast?_cons_cons]
      cases h : (d :: s).getLast? with
      | none => simp at h
      | some e => rfl

theorem squeeze_append (s t : Str) :
    squeeze space b (s ++ t) = squeeze space b s ++ squeeze space (behind space b s) t := by
  induction s generalizing b with
  | nil => rfl
  | cons c s ih =>
      rw [List.cons_append, behind_cons]
      cases hc : space c with
      | false => rw [squeeze_cons hc, squeeze_cons hc, ih, List.cons_append]
      | true =>
          cases b with
          | false => rw [(squeeze_cons_space hc).2, (squeeze_cons_space hc).2, ih, List.cons_append]
          | true => rw [(squeeze_cons_space hc).1, (squeeze_cons_space hc).1, ih]

theorem squeeze_spaces (h : ∀ c ∈ s, space c = true) (t : Str) :
    squeeze space true (s ++ t) = squeeze space true t := by
  induction s with
  | nil => rfl
  | cons c s ih =>
      obtain ⟨hc, hs⟩ := List.forall_mem_cons.mp h
      rw [List.cons_append, (squeeze_cons_space hc).1, ih hs]

theorem squeeze_solid (hne : s ≠ []) (h : ∀ c ∈ s, space c = false) (t : Str) :
    squeeze space b (s ++ t) = s ++ squeeze space false t := by
  induction s generalizing b with
  | nil => exact absurd rfl hne
  | cons c s ih =>
      obtain ⟨hc, hs⟩ := List.forall_mem_cons.mp h
      rw [List.cons_append, squeeze_cons hc]
      cases s with
      | nil => rfl
      | cons d s => rw [ih (List.cons_ne_nil d s) hs]; rfl

theorem run_cons_some {o : Option Setting} {l : List Setting} (h : step σ c = some (τ, o))
    (hr : run τ s = some (l, σ')) : run σ (c :: s) = some (o.toList ++ l, σ') := by
  rw [run_cons, h, Option.bind_some, hr]
  rfl

theorem exists_of_run_cons {l : List Setting} (h : run σ (c :: s) = some (l, σ')) :
    ∃ τ o l', step σ c = some (τ, o) ∧ run τ s = some (l', σ') ∧ l = o.toList ++ l' := by
  rw [run_cons] at h
  obtain ⟨⟨τ, o⟩, hstep, h⟩ := Option.bind_eq_some_iff.mp h
  obtain ⟨⟨l', ρ⟩, hrun, heq⟩ := Option.map_eq_some_iff.mp h
  obtain ⟨rfl, rfl⟩ := Prod.mk.inj heq
  exact ⟨τ, o, l', hstep, hrun, rfl⟩

theorem Tidy.head (h : Tidy space σ (c :: s)) (hc : space c = true) : TidyAt space σ c s :=
  h [] c s [] σ rfl hc rfl

theorem Tidy.tail (h : Tidy space σ (c :: s)) {o : Option Setting} (hs : step σ c = some (τ, o)) :
    Tidy space τ s := by
  intro p d r l ρ hsplit hd hrun
  exact h (c :: p) d r (o.toList ++ l) ρ (by rw [hsplit]; rfl) hd (run_cons_some hs hrun)

/-- Whether the white space is kept, for a first character and for the rest. -/
theorem kept_cons {o : Option Setting} {m : List Setting} (hs : step σ c = some (τ, o))
    (hm : parseFrom σ (c :: s) = some m) : Kept space k b σ (c :: s) ↔
      (k ∉ m.tail.map Prod.fst → KeptAt space k b σ c) ∧ Kept space k (space c) τ s := by
  constructor
  · intro h
    refine ⟨h [] c s [] σ m rfl rfl hm, fun p d r l ρ m' hsplit hrun => ?_⟩
    have := h (c :: p) d r (o.toList ++ l) ρ m' (by rw [hsplit]; rfl) (run_cons_some hs hrun)
    rwa [behind_cons] at this
  · rintro ⟨hhead, htail⟩ p d r l ρ m' hsplit hrun hm' hk
    cases p with
    | nil =>
        obtain ⟨rfl, rfl⟩ := List.cons.inj hsplit
        obtain ⟨-, rfl⟩ := Prod.mk.inj (Option.some.inj hrun)
        obtain rfl := Option.some.inj (hm.symm.trans hm')
        exact hhead hk
    | cons e p =>
        obtain ⟨rfl, hrest⟩ := List.cons.inj hsplit
        obtain ⟨τ', o', l', hstep, hrun, -⟩ := exists_of_run_cons hrun
        obtain ⟨rfl, -⟩ := Prod.mk.inj (Option.some.inj (hs.symm.trans hstep))
        rw [behind_cons]
        exact htail p d r l' ρ m' hrest hrun hm' hk

theorem tidy_cons : Tidy space σ (c :: s) ↔ (space c = true → TidyAt space σ c s) ∧
    ∀ τ o, step σ c = some (τ, o) → Tidy space τ s := by
  refine ⟨fun h => ⟨h.head, fun τ o => h.tail⟩, fun ⟨hhead, htail⟩ p d r l ρ hsplit hd hrun => ?_⟩
  cases p with
  | nil =>
      obtain ⟨rfl, rfl⟩ := List.cons.inj hsplit
      obtain ⟨-, rfl⟩ := Prod.mk.inj (Option.some.inj hrun)
      exact hhead hd
  | cons e p =>
      obtain ⟨rfl, hrest⟩ := List.cons.inj hsplit
      obtain ⟨τ, o, l', hstep, hrun, -⟩ := exists_of_run_cons hrun
      exact htail τ o hstep p d r l' ρ hrest hd hrun

theorem Tidy.append (h : Tidy space σ (s ++ t)) {l : List Setting} (hs : run σ s = some (l, τ)) :
    Tidy space τ t := by
  intro p d r l' ρ hsplit hd hrun
  refine h (s ++ p) d r (l ++ l') ρ (by rw [hsplit, List.append_assoc]) hd ?_
  rw [run_append, hs, Option.bind_some, hrun]
  rfl

instance (σ : State) (c : Char) (r : Str) : Decidable (TidyAt space σ c r) :=
  match σ, r with
  | .value .quoted _ _, _ => isTrue trivial
  | .value .quotedEscaped _ _, _ => isTrue trivial
  | .value .escaped _ _, [] => isFalse fun h => by simp [TidyAt] at h
  | .value .escaped _ _, d :: _ =>
      decidable_of_iff (space d = false) (by simp [TidyAt])
  | .value .plain _ _, _ => inferInstanceAs (Decidable (isBlank c = true))
  | .idle, _ => inferInstanceAs (Decidable (isBlank c = true))
  | .name _, _ => inferInstanceAs (Decidable (isBlank c = true))
  | .named _, _ => inferInstanceAs (Decidable (isBlank c = true))
  | .equals _, _ => inferInstanceAs (Decidable (isBlank c = true))

/-- `Tidy`, character by character. -/
def tidyFrom (space : Char → Bool) : State → Str → Bool
  | _, [] => true
  | σ, c :: s =>
      (!space c || decide (TidyAt space σ c s)) &&
        match step σ c with
        | none => true
        | some (τ, _) => tidyFrom space τ s

theorem tidyFrom_iff : tidyFrom space σ s = true ↔ Tidy space σ s := by
  induction s generalizing σ with
  | nil =>
      refine ⟨fun _ p c r l τ h => ?_, fun _ => rfl⟩
      simp at h
  | cons c s ih =>
      rw [tidy_cons, tidyFrom, Bool.and_eq_true]
      refine and_congr (by cases space c <;> simp) ?_
      cases hs : step σ c with
      | none => simp
      | some q => exact ih.trans ⟨fun h τ o he => by obtain rfl := Option.some.inj he; exact h,
          fun h => h q.1 q.2 rfl⟩

instance (σ : State) (s : Str) : Decidable (Tidy space σ s) := decidable_of_iff _ tidyFrom_iff

/-- White space at the end is not looked at. -/
theorem Tidy.trim (h : Tidy space σ (s ++ t)) (ht : ∀ d ∈ t, space d = true) : Tidy space σ s := by
  intro p c r l τ hsplit hc hrun
  have hat : TidyAt space τ c (r ++ t) :=
    h p c (r ++ t) l τ (by rw [hsplit, List.append_assoc]; rfl) hc hrun
  cases τ with
  | value mode n v =>
      cases mode with
      | escaped =>
          obtain ⟨d, q, hq, hd⟩ := hat
          cases r with
          | nil =>
              have := ht d (by rw [show t = d :: q from hq]; exact List.mem_cons_self)
              rw [hd] at this
              cases this
          | cons e r =>
              obtain ⟨rfl, -⟩ := List.cons.inj hq
              exact ⟨e, r, rfl, hd⟩
      | _ => exact hat
  | _ => exact hat

end Read

/-! ## 2. Two readers, side by side -/

/-- White space as a program takes it: at least what libpq takes for blanks, and neither a quote
    nor a backslash. -/
structure Spaces (space : Char → Bool) : Prop where
  blank : ∀ c, isBlank c = true → space c = true
  quote : space '\'' = false
  backslash : space '\\' = false

theorem Spaces.ne {space : Char → Bool} (h : Spaces space) {c : Char} (hc : space c = true) :
    c ≠ '\\' ∧ c ≠ '\'' := by
  constructor
  · rintro rfl
    rw [h.backslash] at hc
    cases hc
  · rintro rfl
    rw [h.quote] at hc
    cases hc

/-- Readers at the same place of a setting; the second one has read no more of a value. -/
inductive Twin : State → State → Prop
  | idle : Twin .idle .idle
  | name (n : Str) : Twin (.name n) (.name n)
  | named (n : Str) : Twin (.named n) (.named n)
  | equals (n : Str) : Twin (.equals n) (.equals n)
  | value (mode : Mode) (n : Str) {v v' : Str} (h : v'.length ≤ v.length) :
      Twin (.value mode n v) (.value mode n v')

/-- Where another blank changes nothing but a value. -/
def Loose : State → Prop
  | .name _ => False
  | .value .quoted _ _ => True
  | .value _ _ _ => False
  | _ => True

section Twins

variable (space : Char → Bool)

/-- Behind white space the reader is where more of it changes nothing, or there is no more. -/
def Ready (b : Bool) (σ : State) (s : Str) : Prop :=
  b = true → Loose σ ∨ ∃ d r, s = d :: r ∧ space d = false

/-- What a character becomes. -/
def squeezeChar (b : Bool) (c : Char) : Str :=
  if space c then if b then [] else [' '] else [c]

/-- The setting that is being read. -/
def pending : State → Option Setting
  | .value _ n v => some (n, v)
  | _ => none

/-- Both readers have the same value of `k` so far, if `k` is not set again. -/
def Agree (k : Str) (σ σ' : State) : Prop := ∀ v, pending σ = some (k, v) → pending σ' = some (k, v)

variable {space} {σ σ' τ : State} {c : Char} {s t d d' v v' : Str} {b : Bool} {k n : Str}
  {mode : Mode}

theorem squeeze_cons_eq (b : Bool) (c : Char) (s : Str) :
    squeeze space b (c :: s) = squeezeChar space b c ++ squeeze space (space c) s := by
  cases hc : space c with
  | false => simp [squeeze, squeezeChar, hc]
  | true => cases b <;> simp [squeeze, squeezeChar, hc]

theorem agree_value : Agree k (.value mode n v) (.value mode n v') ↔ (n = k → v = v') := by
  constructor
  · rintro h rfl
    exact (Prod.mk.inj (Option.some.inj (h v rfl))).2.symm
  · intro h w hw
    obtain ⟨rfl, rfl⟩ := Prod.mk.inj (Option.some.inj hw)
    rw [h rfl]
    rfl

theorem keptAt_value : KeptAt space k b (.value mode n v) c ↔
    (n = k → space c = true → mode ≠ .plain → c = ' ' ∧ b = false) := by
  cases mode with
  | plain => exact ⟨fun _ _ _ h => absurd rfl h, fun _ _ h => h.elim⟩
  | _ => exact ⟨fun h hk hc _ => h hc hk, fun h hc hk => h hk hc (by simp)⟩

theorem append_eq_append_iff_of_le (h : v'.length ≤ v.length) (hd : d'.length ≤ d.length) :
    v ++ d = v' ++ d' ↔ v = v' ∧ d = d' := by
  constructor
  · intro he
    have hlen := congrArg List.length he
    simp only [List.length_append] at hlen
    exact List.append_inj he (by omega)
  · rintro ⟨rfl, rfl⟩
    rfl

/-- A reader that is not in a value takes a blank for a blank. -/
theorem step_blank (hσ : ∀ mode n v, σ ≠ .value mode n v) (hc : isBlank c = true) :
    step σ c = step σ ' ' := by
  have hne : c ≠ '=' := by
    rintro rfl
    cases hc
  cases σ with
  | value mode n v => exact absurd rfl (hσ mode n v)
  | idle => simp [step, hc, show isBlank ' ' = true from rfl]
  | name n => simp [step, hc, hne, show isBlank ' ' = true from rfl]
  | named n => simp [step, hc, show isBlank ' ' = true from rfl]
  | equals n => simp [step, hc, show isBlank ' ' = true from rfl]

/-- Values that grow by the same, or by less. -/
theorem twin_grow (mode' : Mode) (n : Str) (h : v'.length ≤ v.length) (hd : d'.length ≤ d.length)
    (hsame : d = d' ↔ (space c = true → mode ≠ .plain → c = ' ' ∧ b = false)) :
    Twin (.value mode' n (v ++ d)) (.value mode' n (v' ++ d')) ∧
      ∀ k, Agree k (.value mode' n (v ++ d)) (.value mode' n (v' ++ d')) ↔
        Agree k (.value mode n v) (.value mode n v') ∧ KeptAt space k b (.value mode n v) c := by
  refine ⟨.value mode' n (by simp only [List.length_append]; omega), fun k => ?_⟩
  rw [agree_value, agree_value, keptAt_value, append_eq_append_iff_of_le h hd, hsame]
  exact ⟨fun hk => ⟨fun hn => (hk hn).1, fun hn => (hk hn).2⟩, fun hk hn => ⟨hk.1 hn, hk.2 hn⟩⟩

/-- What one character does to both readers: a value is read to its end in both, or they go on with
    the same values exactly if they had them and the character is kept. -/
structure TwinStep (space : Char → Bool) (b : Bool) (c : Char) (σ σ' τ : State) (o : Option Setting)
    (l' : List Setting) (τ' : State) : Prop where
  run : run σ' (squeezeChar space b c) = some (l', τ')
  twin : Twin τ τ'
  done : (o = none ∧ l' = [] ∧ ∀ k, Agree k τ τ' ↔ Agree k σ σ' ∧ KeptAt space k b σ c) ∨
    ∃ n v v', pending σ = some (n, v) ∧ pending σ' = some (n, v') ∧ o = some (n, v) ∧
      l' = [(n, v')] ∧ τ = .idle ∧ ∀ k, KeptAt space k b σ c

theorem run_singleton {o : Option Setting} (h : step σ c = some (τ, o)) :
    run σ [c] = some (o.toList, τ) := by
  rw [run_cons, h]
  simp [run]

theorem squeezeChar_of_not_space (h : space c = false) : squeezeChar space b c = [c] := by
  simp [squeezeChar, h]

theorem squeezeChar_of_space (h : space c = true) :
    squeezeChar space false c = [' '] ∧ squeezeChar space true c = [] := by
  simp [squeezeChar, h]

/-- A reader that is not in a value ends none, and a blank leads out of a name. -/
theorem step_outside (hσ : ∀ mode n v, σ ≠ .value mode n v) {o : Option Setting}
    (hstep : step σ c = some (τ, o)) : o = none ∧ (isBlank c = true → Loose τ) := by
  by_cases hb : isBlank c = true
  · have hne : c ≠ '=' := by
      rintro rfl
      cases hb
    cases σ with
    | value mode n v => exact absurd rfl (hσ mode n v)
    | _ =>
        simp only [step, hb, hne, if_true, if_false, Option.some.injEq, Prod.mk.injEq] at hstep
        obtain ⟨rfl, rfl⟩ := hstep
        exact ⟨rfl, fun _ => trivial⟩
  · refine ⟨?_, fun h => absurd h hb⟩
    cases σ with
    | value mode n v => exact absurd rfl (hσ mode n v)
    | idle => exact (Prod.mk.inj (Option.some.inj hstep)).2.symm
    | name n => exact (Prod.mk.inj (Option.some.inj hstep)).2.symm
    | named n =>
        rw [step, if_neg hb] at hstep
        split at hstep
        · exact (Prod.mk.inj (Option.some.inj hstep)).2.symm
        · cases hstep
    | equals n =>
        rw [step, if_neg hb] at hstep
        split at hstep
        · exact (Prod.mk.inj (Option.some.inj hstep)).2.symm
        · rw [stepValue, if_neg hb] at hstep
          split at hstep
          · exact (Prod.mk.inj (Option.some.inj hstep)).2.symm
          · exact (Prod.mk.inj (Option.some.inj hstep)).2.symm

/-- A reader that is not in a value. -/
theorem twinStep_outside (hσ : ∀ mode n v, σ ≠ .value mode n v)
    (htidy : space c = true → TidyAt space σ c s) (hready : Ready space b σ (c :: s))
    {o : Option Setting} (hstep : step σ c = some (τ, o)) :
    TwinStep space b c σ σ τ o [] τ ∧ Ready space (space c) τ s := by
  obtain ⟨rfl, hloose⟩ := step_outside hσ hstep
  have htwin : ∀ ρ, Twin ρ ρ := fun ρ => by
    cases ρ with
    | idle => exact .idle
    | name n => exact .name n
    | named n => exact .named n
    | equals n => exact .equals n
    | value mode n v => exact .value mode n (Nat.le_refl _)
  have hdone : ∀ k, Agree k τ τ ↔ Agree k σ σ ∧ KeptAt space k b σ c := by
    intro k
    refine ⟨fun _ => ⟨fun _ h => h, fun _ hk => ?_⟩, fun _ _ h => h⟩
    cases σ with
    | value mode n v => exact absurd rfl (hσ mode n v)
    | _ => exact hk.elim
  have hblank : space c = true → isBlank c = true := by
    intro hc
    have := htidy hc
    cases σ with
    | value mode n v => exact absurd rfl (hσ mode n v)
    | _ => exact this
  have hrun : run σ (squeezeChar space b c) = some ([], τ) := by
    cases hc : space c with
    | false =>
        rw [squeezeChar_of_not_space hc]
        exact run_singleton hstep
    | true =>
        cases b with
        | false =>
            rw [(squeezeChar_of_space hc).1]
            exact run_singleton ((step_blank hσ (hblank hc)).symm.trans hstep)
        | true =>
            -- one blank more changes nothing
            have hsame : step σ c = some (σ, none) := by
              rcases hready rfl with h | ⟨d, r, heq, hd⟩
              · cases σ with
                | name n => exact h.elim
                | value mode n v => exact absurd rfl (hσ mode n v)
                | _ => simp [step, hblank hc]
              · obtain ⟨rfl, -⟩ := List.cons.inj heq
                rw [hc] at hd
                cases hd
            obtain ⟨rfl, -⟩ := Prod.mk.inj (Option.some.inj (hsame.symm.trans hstep))
            rw [(squeezeChar_of_space hc).2]
            rfl
  exact ⟨⟨hrun, htwin τ, .inl ⟨rfl, rfl, hdone⟩⟩, fun hc => .inl (hloose (hblank hc))⟩

/-- A reader that is in a value. -/
theorem twinStep_value (hsp : Spaces space) (hlen : v'.length ≤ v.length)
    (htidy : space c = true → TidyAt space (.value mode n v) c s)
    (hready : Ready space b (.value mode n v) (c :: s)) {o : Option Setting}
    (hstep : step (.value mode n v) c = some (τ, o)) :
    ∃ l' τ', TwinStep space b c (.value mode n v) (.value mode n v') τ o l' τ' ∧
      Ready space (space c) τ s := by
  -- only between quotes does white space follow white space
  have hfirst : space c = true → mode ≠ .quoted → b = false := by
    intro hc hm
    cases b with
    | false => rfl
    | true =>
        rcases hready rfl with h | ⟨d, r, heq, hd⟩
        · cases mode with
          | quoted => exact absurd rfl hm
          | _ => exact h.elim
        · obtain ⟨rfl, -⟩ := List.cons.inj heq
          rw [hc] at hd
          cases hd
  -- a character that lengthens both values
  have hgo : ∀ mode' d d', step (.value mode n v) c = some (.value mode' n (v ++ d), none) →
      run (.value mode n v') (squeezeChar space b c) = some ([], .value mode' n (v' ++ d')) →
      d'.length ≤ d.length →
      (d = d' ↔ (space c = true → mode ≠ .plain → c = ' ' ∧ b = false)) →
      Ready space (space c) (.value mode' n (v ++ d)) s →
      ∃ l' τ', TwinStep space b c (.value mode n v) (.value mode n v') τ o l' τ' ∧
        Ready space (space c) τ s := by
    intro mode' d d' hs hr hd hsame hready'
    obtain ⟨rfl, rfl⟩ := Prod.mk.inj (Option.some.inj (hs.symm.trans hstep))
    have := twin_grow mode' n hlen hd hsame
    exact ⟨[], _, ⟨hr, this.1, .inl ⟨rfl, rfl, this.2⟩⟩, hready'⟩
  -- a character that ends both
  have hend : step (.value mode n v) c = some (.idle, some (n, v)) →
      run (.value mode n v') (squeezeChar space b c) = some ([(n, v')], .idle) →
      (space c = true → mode = .plain) →
      ∃ l' τ', TwinStep space b c (.value mode n v) (.value mode n v') τ o l' τ' ∧
        Ready space (space c) τ s := by
    intro hs hr hplain
    obtain ⟨rfl, rfl⟩ := Prod.mk.inj (Option.some.inj (hs.symm.trans hstep))
    refine ⟨[(n, v')], .idle, ⟨hr, .idle, .inr ⟨n, v, v', rfl, rfl, rfl, rfl, rfl, fun k => ?_⟩⟩,
      fun _ => .inl trivial⟩
    exact keptAt_value.mpr fun _ hc hm => absurd (hplain hc) hm
  cases hc : space c with
  | false =>
      rw [hc] at hgo hend
      rcases stepValue_cases mode n c with hs | ⟨mode', d, -, hs⟩
      · have hs' : ∀ w, step (.value mode n w) c = some (.idle, some (n, w)) := fun w =>
          congrArg some (hs w)
        refine hend (hs' v) ?_ (fun h => by cases h)
        rw [squeezeChar_of_not_space hc]
        exact run_singleton (hs' v')
      · have hs' : ∀ w, step (.value mode n w) c = some (.value mode' n (w ++ d), none) := fun w =>
          congrArg some (hs w)
        refine hgo mode' d d (hs' v) ?_ (Nat.le_refl _) ⟨fun _ h => (by cases h), fun _ => rfl⟩
          (fun h => by cases h)
        rw [squeezeChar_of_not_space hc]
        exact run_singleton (hs' v')
  | true =>
      rw [hc] at hgo hend
      have hq := hsp.ne hc
      cases mode with
      | plain =>
          have hb : isBlank c = true := htidy hc
          obtain rfl := hfirst hc (by simp)
          refine hend (by simp [step, stepValue, hb]) ?_ (fun _ => rfl)
          rw [(squeezeChar_of_space hc).1]
          rfl
      | escaped =>
          obtain rfl := hfirst hc (by simp)
          refine hgo .plain [c] [' '] rfl ?_ (Nat.le_refl _) ?_ (fun _ => .inr (htidy hc))
          · rw [(squeezeChar_of_space hc).1]
            rfl
          · simp
      | quoted =>
          have hs : step (.value .quoted n v) c = some (.value .quoted n (v ++ [c]), none) := by
            simp [step, stepValue, hq]
          cases b with
          | false =>
              refine hgo .quoted [c] [' '] hs ?_ (Nat.le_refl _) (by simp) (fun _ => .inl trivial)
              rw [(squeezeChar_of_space hc).1]
              rfl
          | true =>
              refine hgo .quoted [c] [] hs ?_ (Nat.zero_le _) (by simp) (fun _ => .inl trivial)
              rw [(squeezeChar_of_space hc).2, List.append_nil]
              rfl
      | quotedEscaped =>
          obtain rfl := hfirst hc (by simp)
          refine hgo .quoted [c] [' '] rfl ?_ (Nat.le_refl _) (by simp) (fun _ => .inl trivial)
          rw [(squeezeChar_of_space hc).1]
          rfl

theorem TwinStep.names {o : Option Setting} {l' : List Setting} {τ' : State}
    (h : TwinStep space b c σ σ' τ o l' τ') : l'.map Prod.fst = o.toList.map Prod.fst := by
  rcases h.done with ⟨rfl, rfl, -⟩ | ⟨n, v, v', -, -, rfl, rfl, -⟩
  · rfl
  · rfl

/-- **One character, in both readers.** -/
theorem twinStep (hsp : Spaces space) (ht : Twin σ σ')
    (htidy : space c = true → TidyAt space σ c s) (hready : Ready space b σ (c :: s))
    {o : Option Setting} (hstep : step σ c = some (τ, o)) :
    ∃ l' τ', TwinStep space b c σ σ' τ o l' τ' ∧ Ready space (space c) τ s := by
  have houtside : ∀ ρ : State, (∀ mode n v, ρ ≠ .value mode n v) → ρ = σ → σ' = σ →
      ∃ l' τ', TwinStep space b c σ σ' τ o l' τ' ∧ Ready space (space c) τ s := by
    rintro ρ hρ rfl rfl
    exact ⟨[], τ, twinStep_outside hρ htidy hready hstep⟩
  cases ht with
  | value mode n hlen => exact twinStep_value hsp hlen htidy hready hstep
  | _ => exact houtside _ (by simp) rfl rfl

/-! ## 3. Whole texts -/

/-- **The reader goes the same way in a squeezed text**, with the same names. -/
theorem run_squeeze (hsp : Spaces space) (ht : Twin σ σ') (htidy : Tidy space σ (s ++ t))
    (hready : Ready space b σ (s ++ t)) {l : List Setting} (hrun : run σ s = some (l, τ)) :
    ∃ l' τ', run σ' (squeeze space b s) = some (l', τ') ∧ Twin τ τ' ∧
      l'.map Prod.fst = l.map Prod.fst ∧ Ready space (behind space b s) τ t := by
  induction s generalizing σ σ' b l with
  | nil =>
      obtain ⟨rfl, rfl⟩ := Prod.mk.inj (Option.some.inj hrun)
      exact ⟨[], σ', rfl, ht, rfl, hready⟩
  | cons c s ih =>
      obtain ⟨ρ, o, l₁, hstep, hrest, rfl⟩ := exists_of_run_cons hrun
      obtain ⟨e, ρ', h, hready'⟩ := twinStep hsp ht htidy.head hready hstep
      obtain ⟨l', τ', hrun', ht', hnames, hready''⟩ := ih h.twin (htidy.tail hstep) hready' hrest
      refine ⟨e ++ l', τ', ?_, ht', ?_, ?_⟩
      · rw [squeeze_cons_eq, run_append, h.run, Option.bind_some, hrun']
        rfl
      · rw [List.map_append, List.map_append, h.names, hnames]
      · rwa [behind_cons]

/-- The end of a text, in both readers. -/
theorem finish_twin (ht : Twin σ σ') {m : List Setting} (hm : finish σ = some m) :
    ∃ m', finish σ' = some m' ∧ m'.map Prod.fst = m.map Prod.fst ∧
      ∀ k, last m' k = last m k ↔ (k ∉ m.tail.map Prod.fst → Agree k σ σ') := by
  have hsame : ∀ k, Agree k σ σ → (last m k = last m k ↔ (k ∉ m.tail.map Prod.fst → Agree k σ σ)) :=
    fun k h => ⟨fun _ _ => h, fun _ => rfl⟩
  have hvalue : ∀ (mode : Mode) (n v v' k : Str), last [(n, v')] k = last [(n, v)] k ↔
      (k ∉ ([(n, v)] : List Setting).tail.map Prod.fst →
        Agree k (.value mode n v) (.value mode n v')) := by
    intro mode n v v' k
    rw [last_singleton, last_singleton, agree_value]
    by_cases hk : k = n
    · simp [hk, eq_comm]
    · simp [hk, Ne.symm hk]
  cases ht with
  | value mode n hlen =>
      cases mode with
      | plain =>
          obtain rfl := Option.some.inj hm
          exact ⟨_, rfl, rfl, hvalue .plain n _ _⟩
      | escaped =>
          obtain rfl := Option.some.inj hm
          exact ⟨_, rfl, rfl, hvalue .escaped n _ _⟩
      | quoted => cases hm
      | quotedEscaped => cases hm
  | _ => exact ⟨m, hm, rfl, fun k => hsame k fun _ h => h⟩

/-- Kept from here on. -/
theorem kept_nil : Kept space k b σ [] := by
  intro p c r l τ m h
  simp at h

/-- **A squeezed text has the same names, and of each name the same value exactly if the white
    space in it is kept.** -/
theorem parseFrom_squeeze (hsp : Spaces space) (ht : Twin σ σ') (htidy : Tidy space σ s)
    (hready : Ready space b σ s) {m : List Setting} (hm : parseFrom σ s = some m) :
    ∃ m', parseFrom σ' (squeeze space b s) = some m' ∧ m'.map Prod.fst = m.map Prod.fst ∧
      ∀ k, last m' k = last m k ↔
        (k ∉ m.tail.map Prod.fst → Agree k σ σ') ∧ Kept space k b σ s := by
  induction s generalizing σ σ' b m with
  | nil =>
      have hnil : ∀ ρ, parseFrom ρ [] = finish ρ := fun ρ => by
        simp [parseFrom, run]
      rw [hnil] at hm
      obtain ⟨m', hm', hnames, hlast⟩ := finish_twin ht hm
      refine ⟨m', (hnil σ').trans hm', hnames, fun k => ?_⟩
      rw [hlast k]
      exact (and_iff_left kept_nil).symm
  | cons c s ih =>
      have hm₀ := hm
      rw [parseFrom_cons] at hm
      obtain ⟨⟨τ, o⟩, hstep, hm⟩ := Option.bind_eq_some_iff.mp hm
      obtain ⟨m₁, hm₁, rfl⟩ := Option.map_eq_some_iff.mp hm
      obtain ⟨e, τ', h, hready'⟩ := twinStep hsp ht htidy.head hready hstep
      obtain ⟨m₁', hm₁', hnames, hlast⟩ := ih h.twin (htidy.tail hstep) hready' hm₁
      refine ⟨e ++ m₁', ?_, ?_, fun k => ?_⟩
      · rw [squeeze_cons_eq, parseFrom_append, h.run, Option.bind_some, hm₁']
        rfl
      · rw [List.map_append, List.map_append, h.names, hnames]
      · rw [kept_cons hstep hm₀]
        rcases h.done with ⟨rfl, rfl, hagree⟩ | ⟨n, v, v', hv, hv', rfl, rfl, rfl, hkept⟩
        · -- the value goes on
          show last m₁' k = last m₁ k ↔
            (k ∉ m₁.tail.map Prod.fst → _) ∧ (k ∉ m₁.tail.map Prod.fst → _) ∧ _
          rw [hlast k, ← and_assoc, ← imp_and, hagree k]
        · -- the value ends
          have hrest : last m₁' k = last m₁ k ↔ Kept space k (space c) .idle s := by
            rw [hlast k]
            exact and_iff_right fun _ w hw => by cases hw
          have hagree : Agree k σ σ' ↔ (n = k → v' = v) := by
            constructor
            · rintro ha rfl
              exact (Prod.mk.inj (Option.some.inj (hv'.symm.trans (ha v hv)))).2
            · intro ha w hw
              obtain ⟨rfl, rfl⟩ := Prod.mk.inj (Option.some.inj (hv.symm.trans hw))
              rw [hv', ha rfl]
          show last ((n, v') :: m₁') k = last ((n, v) :: m₁) k ↔ (k ∉ m₁.map Prod.fst → _) ∧ _
          rw [last_cons, last_cons, hagree]
          by_cases hk : k ∈ m₁.map Prod.fst
          · -- it is set again behind it
            have hsome : ∀ {l : List Setting}, k ∈ l.map Prod.fst → ∃ x, last l k = some x :=
              fun hl => Option.ne_none_iff_exists'.mp fun hn => last_eq_none_iff.mp hn hl
            obtain ⟨x, hx⟩ := hsome hk
            obtain ⟨y, hy⟩ := hsome (hnames ▸ hk)
            rw [hx, hy] at hrest ⊢
            rw [Option.some_or, Option.some_or, hrest]
            exact ⟨fun h => ⟨fun h' => absurd hk h', fun _ => hkept k, h⟩, fun h => h.2.2⟩
          · have hx := last_eq_none_iff.mpr hk
            have hy := last_eq_none_iff.mpr (hnames ▸ hk)
            rw [hx, hy] at hrest ⊢
            have hkeep := hrest.mp rfl
            by_cases hn : k = n
            · simp only [if_pos hn, Option.none_or, Option.some.injEq]
              exact ⟨fun h => ⟨fun _ _ => h, fun _ => hkept k, hkeep⟩, fun h => h.1 hk hn.symm⟩
            · simp only [if_neg hn]
              exact ⟨fun _ => ⟨fun _ h => absurd h.symm hn, fun _ => hkept k, hkeep⟩, fun _ => trivial⟩

/-! ## 4. White space at the end -/

/-- A blank at the end, in both readers. -/
theorem run_squeeze_blank (hsp : Spaces space) (ht : Twin σ σ') (htidy : Tidy space σ s)
    (hready : Ready space b σ s) {l : List Setting} (hrun : run σ s = some (l, τ)) :
    ∃ l₁ l₁' τ₁ τ₁', run σ (s ++ [' ']) = some (l₁, τ₁) ∧
      run σ' (squeeze space b (s ++ [' '])) = some (l₁', τ₁') ∧ Twin τ₁ τ₁' ∧
      l₁'.map Prod.fst = l₁.map Prod.fst := by
  have htidy' : Tidy space σ (s ++ []) := by rwa [List.append_nil]
  have hready' : Ready space b σ (s ++ []) := by rwa [List.append_nil]
  obtain ⟨l', τ', hrun', ht', hnames, hend⟩ := run_squeeze hsp ht htidy' hready' hrun
  have hstep : ∃ τ₁ o, step τ ' ' = some (τ₁, o) := by
    cases τ with
    | value mode n v => exact ⟨_, _, rfl⟩
    | _ => exact ⟨_, _, rfl⟩
  obtain ⟨τ₁, o, hstep⟩ := hstep
  -- a quote behind the blank, which is not read
  have hat : TidyAt space τ ' ' ['\''] := by
    cases τ with
    | value mode n v =>
        cases mode with
        | plain => rfl
        | escaped => exact ⟨'\'', [], rfl, hsp.quote⟩
        | quoted => trivial
        | quotedEscaped => trivial
    | _ => rfl
  have hloose : Ready space (behind space b s) τ [' ', '\''] := by
    intro hb
    rcases hend hb with h | ⟨d, r, hnil, -⟩
    · exact .inl h
    · cases hnil
  obtain ⟨e, τ₁', h, -⟩ := twinStep hsp ht' (fun _ => hat) hloose hstep
  refine ⟨l ++ (o.toList ++ []), l' ++ (e ++ []), τ₁, τ₁', ?_, ?_, h.twin, ?_⟩
  · rw [run_append, hrun, Option.bind_some, run_cons_some hstep rfl]
    rfl
  · rw [squeeze_append, run_append, hrun', Option.bind_some, squeeze_cons_eq, run_append, h.run]
    rfl
  · simp only [List.append_nil, List.map_append, hnames, h.names]

/-- White space at the end adds nothing. -/
theorem finish_of_spaces (hsp : Spaces space) (hs : ∀ d ∈ s, space d = true) (htidy : Tidy space σ s)
    {m : List Setting} (hm : parseFrom σ s = some m) : finish σ = some m := by
  induction s generalizing σ m with
  | nil => simpa [parseFrom, run] using hm
  | cons c s ih =>
      obtain ⟨hc, hrest⟩ := List.forall_mem_cons.mp hs
      have hat := htidy.head hc
      rw [parseFrom_cons] at hm
      obtain ⟨⟨τ, o⟩, hstep, hm⟩ := Option.bind_eq_some_iff.mp hm
      obtain ⟨m₁, hm₁, rfl⟩ := Option.map_eq_some_iff.mp hm
      have hfin := ih hrest (htidy.tail hstep) hm₁
      have hq := hsp.ne hc
      cases σ with
      | value mode n v =>
          cases mode with
          | plain =>
              simp only [step, stepValue, show isBlank c = true from hat, if_true, Option.some.injEq,
                Prod.mk.injEq] at hstep
              obtain ⟨rfl, rfl⟩ := hstep
              obtain rfl := Option.some.inj hfin
              rfl
          | escaped =>
              obtain ⟨d, r, rfl, hd⟩ := hat
              rw [hrest d List.mem_cons_self] at hd
              cases hd
          | quoted =>
              simp only [step, stepValue, if_neg hq.1, if_neg hq.2, Option.some.injEq,
                Prod.mk.injEq] at hstep
              obtain ⟨rfl, -⟩ := hstep
              cases hfin
          | quotedEscaped =>
              obtain ⟨rfl, -⟩ := Prod.mk.inj (Option.some.inj hstep)
              cases hfin
      | _ =>
          have hb : isBlank c = true := hat
          have hne : c ≠ '=' := by
            rintro rfl
            cases hb
          simp only [step, hb, if_true, if_neg hne, Option.some.injEq, Prod.mk.injEq] at hstep
          obtain ⟨rfl, rfl⟩ := hstep
          exact hfin

theorem parseFrom_trim (hsp : Spaces space) (ht : ∀ d ∈ t, space d = true)
    (htidy : Tidy space σ (s ++ t)) {m : List Setting} (hm : parseFrom σ (s ++ t) = some m) :
    parseFrom σ s = some m := by
  obtain ⟨l, τ, m', hrun, hm', rfl⟩ := exists_run_of_parseFrom hm
  have := finish_of_spaces hsp ht (htidy.append hrun) hm'
  simp [parseFrom, hrun, this]

/-- White space at the end is in no value. -/
theorem kept_trim (hsp : Spaces space) (ht : ∀ d ∈ t, space d = true)
    (htidy : Tidy space σ (s ++ t)) {m : List Setting} (hm : parseFrom σ (s ++ t) = some m) :
    Kept space k b σ (s ++ t) ↔ Kept space k b σ s := by
  have hpart : ∀ p c r l τ, s = p ++ c :: r → run σ p = some (l, τ) →
      ∃ m', parseFrom τ (c :: r) = some m' ∧ parseFrom τ (c :: (r ++ t)) = some m' := by
    intro p c r l τ hsplit hrun
    have htext : s ++ t = p ++ ((c :: r) ++ t) := by
      rw [hsplit, List.append_assoc]
    rw [htext] at hm htidy
    rw [parseFrom_append, hrun, Option.bind_some] at hm
    obtain ⟨m', hm', -⟩ := Option.map_eq_some_iff.mp hm
    exact ⟨m', parseFrom_trim hsp ht (htidy.append hrun) hm', hm'⟩
  constructor
  · intro h p c r l τ m' hsplit hrun hm' hk
    obtain ⟨m'', h₁, h₂⟩ := hpart p c r l τ hsplit hrun
    obtain rfl := Option.some.inj (h₁.symm.trans hm')
    exact h p c (r ++ t) l τ _ (by rw [hsplit, List.append_assoc]; rfl) hrun h₂ hk
  · intro h p c r l τ m' hsplit hrun hm' hk hc hguard
    have hend : ¬ ∀ d ∈ c :: r, space d = true := by
      intro hr
      have htidy' : Tidy space τ (c :: r) := (hsplit ▸ htidy).append hrun
      have hfin := finish_of_spaces hsp hr htidy' hm'
      cases τ with
      | value mode n v =>
          cases mode with
          | plain => exact hguard
          | escaped =>
              obtain ⟨d, q, rfl, hd⟩ := htidy'.head hc
              rw [hr d (by simp)] at hd
              cases hd
          | quoted => cases hfin
          | quotedEscaped => cases hfin
      | _ => exact hguard
    rcases List.append_eq_append_iff.mp hsplit with ⟨q, hp, hq⟩ | ⟨q, hp, hq⟩
    · exact absurd (fun d hd => ht d (hq ▸ List.mem_append_right q hd)) hend
    · cases q with
      | nil =>
          have hq : c :: r = t := hq
          exact absurd (fun d hd => ht d (hq ▸ hd)) hend
      | cons d q =>
          obtain ⟨rfl, rfl⟩ := List.cons.inj hq
          obtain ⟨m'', h₁, h₂⟩ := hpart p c q l τ hp hrun
          obtain rfl := Option.some.inj (h₂.symm.trans hm')
          exact h p c q l τ _ hp hrun h₁ hk hc hguard

end Twins

/-! ## 5. Values written as they stand -/

section Bare

variable {space : Char → Bool} {s r v w : Str} {k n : Str} {l : List Setting}

/-- A value is no longer than its text. -/
theorem length_of_run {mode mode' : Mode} {v' : Str}
    (h : run (.value mode n v) s = some ([], .value mode' k v')) :
    v'.length + mode'.escapes ≤ v.length + s.length + mode.escapes := by
  induction s generalizing mode v with
  | nil =>
      obtain ⟨-, h⟩ := Prod.mk.inj (Option.some.inj h)
      obtain ⟨rfl, rfl, rfl⟩ := State.value.inj h
      simp
  | cons c s ih =>
      obtain ⟨τ, o, l', hstep, hrun, hl⟩ := exists_of_run_cons h
      obtain ⟨ho, rfl⟩ := List.append_eq_nil_iff.mp hl.symm
      have hstep : stepValue n v c mode = (τ, o) := Option.some.inj hstep
      rcases stepValue_cases mode n c with hs | ⟨mode'', d, hd, hs⟩
      · obtain ⟨-, rfl⟩ := Prod.mk.inj ((hs v).symm.trans hstep)
        cases ho
      · obtain ⟨rfl, -⟩ := Prod.mk.inj ((hs v).symm.trans hstep)
        have := ih hrun
        simp only [List.length_append, List.length_cons] at this ⊢
        omega

/-- Behind an equals sign a value begins, with a character that is neither a blank nor a quote. -/
theorem step_equals {c : Char} (hb : isBlank c = false) (hq : c ≠ '\'') :
    step (.equals k) c = step (.value .plain k []) c := by
  simp [step, hb, hq]

/-- **A value that is its own text** is read without quotes and backslashes; or it is empty, with
    nothing but blanks behind it. -/
theorem ValueText.self (h : ValueText k w w r) :
    (∃ c s, w = c :: s ∧ isBlank c = false ∧ c ≠ '\'' ∧
      run (.equals k) w = some ([], .value .plain k w)) ∨ w = [] ∧ ∀ c ∈ r, isBlank c = true := by
  have hgen : ∀ w', ValueText k w' w r → w' = w → (∃ c s, w = c :: s ∧ isBlank c = false ∧ c ≠ '\'' ∧
      run (.equals k) w = some ([], .value .plain k w)) ∨ w = [] ∧ ∀ c ∈ r, isBlank c = true := by
    intro w' h hw
    cases h with
    | quoted h =>
        have := length_of_run h
        have hlen := congrArg List.length hw
        simp only [Mode.escapes, List.length_cons, List.length_append, List.length_nil] at this hlen
        omega
    | @bare c s _ _ hb hq h hr => exact .inl ⟨c, s, hw.symm, hb, hq, hw ▸ h⟩
    | @escaped c s _ hb hq hrun =>
        have hstep : run (.value .plain k []) (c :: s) = some ([], .value .escaped k w) := by
          rw [run_cons, ← step_equals hb hq, ← run_cons, hrun]
        have := length_of_run hstep
        have hlen := congrArg List.length hw
        simp only [Mode.escapes, List.length_cons, List.length_nil] at this hlen
        omega
    | empty hr => exact .inr ⟨rfl, hr⟩
  exact hgen w h rfl

/-- It is one before another text, too. -/
theorem ValueText.before {r' : Str} (h : ValueText k w w r)
    (hr : r' = [] ∨ ∃ b q, r' = b :: q ∧ isBlank b = true)
    (hblank : (∀ c ∈ r, isBlank c = true) → ∀ c ∈ r', isBlank c = true) : ValueText k w w r' := by
  rcases h.self with ⟨c, s, rfl, hb, hq, hrun⟩ | ⟨rfl, hall⟩
  · exact .bare hb hq hrun hr
  · exact .empty (hblank hall)

/-- Behind the text of a value the reader is between settings. -/
theorem Tidy.behind_value (h : Tidy space (.equals k) (v ++ r)) (hv : ValueText k v w r)
    (hr : ∀ c q, r = c :: q → space c = true) : Tidy space .idle r := by
  cases hv with
  | @quoted body _ _ hbody =>
      have hopen : step (.equals k) '\'' = some (.value .quoted k [], none) := rfl
      have hclose : step (.value .quoted k w) '\'' = some (.idle, some (k, w)) := rfl
      have hrun : run (.equals k) ('\'' :: (body ++ ['\''])) = some ([(k, w)], .idle) := by
        rw [run_cons, hopen, Option.bind_some, run_append, hbody, Option.bind_some, run_cons, hclose]
        rfl
      exact h.append hrun
  | bare _ _ hrun _ =>
      cases r with
      | nil =>
          intro p c q l τ hsplit
          simp at hsplit
      | cons c q =>
          have hvalue := h.append hrun
          have hc : isBlank c = true := hvalue.head (hr c q rfl)
          have hend : step (.value .plain k w) c = some (.idle, some (k, w)) := by
            simp [step, stepValue, hc]
          have hidle : step .idle c = some (.idle, none) := by simp [step, hc]
          refine tidy_cons.mpr ⟨fun _ => hc, fun τ o hs => ?_⟩
          obtain ⟨rfl, -⟩ := Prod.mk.inj (Option.some.inj (hidle.symm.trans hs))
          exact hvalue.tail hend
  | escaped _ _ _ =>
      intro p c q l τ hsplit
      simp at hsplit
  | empty hblank =>
      intro p d q l τ hsplit hd hrun
      have hp : ∀ e ∈ p, isBlank e = true := fun e he => hblank e (by rw [hsplit]; simp [he])
      have hd : isBlank d = true := hblank d (by rw [hsplit]; simp)
      rw [(run_blanks (n := k) hp).1] at hrun
      obtain ⟨-, rfl⟩ := Prod.mk.inj (Option.some.inj hrun)
      exact hd

/-- What has been read of a value stays. -/
theorem prefix_of_parseFrom {mode : Mode} {V : Str}
    (h : parseFrom (.value mode k v) s = some ((n, V) :: l)) : v <+: V := by
  rcases parseFrom_value mode k s with hn | ⟨v', l', hs⟩
  · rw [hn] at h
    cases h
  · have he := (List.cons.inj (Option.some.inj ((hs v).symm.trans h))).1
    exact ⟨v', (Prod.mk.inj he).2⟩

/-- Without blanks, a text stays in the value that it is in. -/
theorem exists_run_bare {mode : Mode} (hmode : mode = .plain ∨ mode = .escaped)
    (hs : ∀ c ∈ s, isBlank c = false) : ∃ mode' v', (mode' = .plain ∨ mode' = .escaped) ∧
      run (.value mode k v) s = some ([], .value mode' k v') := by
  induction s generalizing mode v with
  | nil => exact ⟨mode, v, hmode, rfl⟩
  | cons c s ih =>
      obtain ⟨hc, hs⟩ := List.forall_mem_cons.mp hs
      have hstep : ∃ mode' v', (mode' = .plain ∨ mode' = .escaped) ∧
          step (.value mode k v) c = some (.value mode' k v', none) := by
        rcases hmode with rfl | rfl
        · by_cases he : c = '\\'
          · exact ⟨.escaped, v, .inr rfl, by simp [he, step, stepValue, show isBlank '\\' = false from rfl]⟩
          · exact ⟨.plain, v ++ [c], .inl rfl, by simp [step, stepValue, hc, he]⟩
        · exact ⟨.plain, v ++ [c], .inl rfl, rfl⟩
      obtain ⟨mode₁, v₁, hmode₁, hstep⟩ := hstep
      obtain ⟨mode₂, v₂, hmode₂, hrun⟩ := ih (v := v₁) hmode₁ hs
      exact ⟨mode₂, v₂, hmode₂, run_cons_some hstep hrun⟩

/-- A value between quotes is shorter than its text, or has the white space that ends the text. -/
theorem short_of_quoted (hsp : Spaces space) {mode : Mode} {V : Str}
    (hmode : mode = .quoted ∨ mode = .quotedEscaped) (hr : ∀ c q, r = c :: q → space c = true)
    (h : parseFrom (.value mode k v) (s ++ r) = some ((k, V) :: l)) :
    V.length < v.length + s.length ∨ ∃ c ∈ V, space c = true := by
  induction s generalizing mode v with
  | nil =>
      cases r with
      | nil =>
          rw [List.nil_append, parseFrom, run] at h
          rcases hmode with rfl | rfl <;> cases h
      | cons c q =>
          have hc := hr c q rfl
          have hstep : step (.value mode k v) c = some (.value .quoted k (v ++ [c]), none) := by
            rcases hmode with rfl | rfl
            · simp [step, stepValue, hsp.ne hc]
            · rfl
          rw [List.nil_append, parseFrom_cons, hstep, Option.bind_some] at h
          obtain ⟨m, hm, rfl⟩ := Option.map_eq_some_iff.mp h
          have := prefix_of_parseFrom (n := k) hm
          exact .inr ⟨c, this.subset (by simp), hc⟩
  | cons c s ih =>
      rw [List.cons_append, parseFrom_cons] at h
      have hgo : ∀ mode' d, (mode' = .quoted ∨ mode' = .quotedEscaped) → d.length ≤ 1 →
          step (.value mode k v) c = some (.value mode' k (v ++ d), none) →
          V.length < v.length + (c :: s).length ∨ ∃ e ∈ V, space e = true := by
        intro mode' d hmode' hd hstep
        rw [hstep, Option.bind_some] at h
        obtain ⟨m, hm, rfl⟩ := Option.map_eq_some_iff.mp h
        rcases ih hmode' hm with hlen | hmem
        · simp only [List.length_append, List.length_cons] at hlen ⊢
          exact .inl (by omega)
        · exact .inr hmem
      rcases hmode with rfl | rfl
      · by_cases he : c = '\\'
        · exact hgo .quotedEscaped [] (.inr rfl) (Nat.zero_le 1) (by simp [step, stepValue, he])
        · by_cases hq : c = '\''
          · have hstep : step (.value .quoted k v) c = some (.idle, some (k, v)) := by
              simp [step, stepValue, hq]
            rw [hstep, Option.bind_some] at h
            obtain ⟨m, -, heq⟩ := Option.map_eq_some_iff.mp h
            obtain ⟨-, rfl⟩ := Prod.mk.inj (List.cons.inj heq).1
            exact .inl (by simp)
          · exact hgo .quoted [c] (.inl rfl) (Nat.le_refl 1) (by simp [step, stepValue, he, hq])
      · exact hgo .quoted [c] (.inl rfl) (Nat.le_refl 1) rfl

/-- **A value without white space that is its own text, up to white space or the end**: it is read
    as such, or it is empty, and quotes or a backslash with nothing in them come before the next
    setting. -/
theorem valueText_of_parseFrom (hsp : Spaces space) (hw : ∀ c ∈ w, space c = false)
    (hr : ∀ c q, r = c :: q → space c = true) (htidy : Tidy space (.equals k) (w ++ r))
    (h : parseFrom (.equals k) (w ++ r) = some ((k, w) :: l)) :
    ValueText k w w r ∨ w = [] ∧ ∃ p c q, r = p ++ c :: q ∧ (∀ d ∈ p, isBlank d = true) ∧
      isBlank c = false ∧ (c = '\'' ∨ c = '\\') := by
  have hsolid : ∀ c ∈ w, space c ≠ true := fun c hc => by simp [hw c hc]
  cases w with
  | nil =>
      -- the blanks, and what stands behind them
      obtain ⟨p, q, rfl, hblank, hq⟩ := Str.exists_span isBlank r
      cases q with
      | nil => exact .inl (.empty fun d hd => hblank d (by simpa using hd))
      | cons c q =>
          have hc := hq c q rfl
          by_cases hcq : c = '\'' ∨ c = '\\'
          · exact .inr ⟨rfl, p, c, q, rfl, hblank, hc, hcq⟩
          · obtain ⟨hquote, hback⟩ := not_or.mp hcq
            rw [List.nil_append, parseFrom_append, (run_blanks hblank).2, Option.bind_some] at h
            have hstep : step (.equals k) c = some (.value .plain k [c], none) := by
              simp [step, stepValue, hc, hquote, hback]
            obtain ⟨m, hm, heq⟩ := Option.map_eq_some_iff.mp h
            obtain rfl : m = (k, []) :: l := heq
            rw [parseFrom_cons, hstep, Option.bind_some] at hm
            obtain ⟨m, hm, rfl⟩ := Option.map_eq_some_iff.mp hm
            exact absurd (List.prefix_nil.mp (prefix_of_parseFrom hm)) (List.cons_ne_nil c [])
  | cons c w =>
      left
      have hnb : ∀ d ∈ c :: w, isBlank d = false := fun d hd => by
        cases hb : isBlank d with
        | false => rfl
        | true => exact absurd (hsp.blank d hb) (hsolid d hd)
      have hc := hnb c List.mem_cons_self
      by_cases hq : c = '\''
      · -- between quotes it would be shorter
        subst hq
        have hstep : step (.equals k) '\'' = some (.value .quoted k [], none) := rfl
        rw [List.cons_append, parseFrom_cons, hstep, Option.bind_some] at h
        obtain ⟨m, hm, rfl⟩ := Option.map_eq_some_iff.mp h
        rcases short_of_quoted hsp (.inl rfl) hr hm with hlen | ⟨d, hd, hspace⟩
        · simp only [List.length_cons, List.length_nil] at hlen
          omega
        · exact absurd hspace (hsolid d hd)
      · obtain ⟨mode, v, hmode, hrun⟩ := exists_run_bare (k := k) (v := []) (.inl rfl) hnb
        have hrun' : run (.equals k) (c :: w) = some ([], .value mode k v) := by
          rw [run_cons, step_equals hc hq, ← run_cons, hrun]
        have hlen := length_of_run hrun
        rw [parseFrom_append, hrun', Option.bind_some] at h
        obtain ⟨m, hm, heq⟩ := Option.map_eq_some_iff.mp h
        obtain rfl : m = (k, c :: w) :: l := heq
        have htidy' := htidy.append hrun'
        rcases hmode with rfl | rfl
        · -- the value ends where the text does
          have hvalue : v = c :: w := by
            cases r with
            | nil => exact (Prod.mk.inj (List.cons.inj (Option.some.inj hm)).1).2
            | cons d q =>
                have hd : isBlank d = true := htidy'.head (hr d q rfl)
                have hstep : step (.value .plain k v) d = some (.idle, some (k, v)) := by
                  simp [step, stepValue, hd]
                rw [parseFrom_cons, hstep, Option.bind_some] at hm
                obtain ⟨m, -, heq⟩ := Option.map_eq_some_iff.mp hm
                exact (Prod.mk.inj (List.cons.inj heq).1).2
          refine .bare hc hq (hvalue ▸ hrun') ?_
          cases r with
          | nil => exact .inl rfl
          | cons d q => exact .inr ⟨d, q, rfl, htidy'.head (hr d q rfl)⟩
        · -- a backslash before the white space takes it into the value
          cases r with
          | nil =>
              have := (Prod.mk.inj (List.cons.inj (Option.some.inj hm)).1).2
              subst this
              simp only [Mode.escapes, List.length_cons, List.length_nil] at hlen
              omega
          | cons d q =>
              have hstep : step (.value .escaped k v) d =
                  some (.value .plain k (v ++ [d]), none) := rfl
              rw [parseFrom_cons, hstep, Option.bind_some] at hm
              obtain ⟨m, hm, heq⟩ := Option.map_eq_some_iff.mp hm
              obtain rfl : m = (k, c :: w) :: l := heq
              exact absurd (hr d q rfl) (hsolid d ((prefix_of_parseFrom hm).subset (by simp)))

/-- Behind an equals sign comes the value. -/
theorem exists_of_equals (h : parseFrom (.equals k) s = some l) : ∃ v l', l = (k, v) :: l' := by
  have hvalue : ∀ mode v s l, parseFrom (.value mode k v) s = some l → ∃ v l', l = (k, v) :: l' := by
    intro mode v s l h
    rcases parseFrom_value mode k s with hn | ⟨v', l', hs⟩
    · rw [hn] at h
      cases h
    · exact ⟨v ++ v', l', Option.some.inj (h.symm.trans (hs v))⟩
  obtain ⟨p, q, rfl, hp, hq⟩ := Str.exists_span isBlank s
  rw [parseFrom_append, (run_blanks hp).2, Option.bind_some] at h
  obtain ⟨m, hm, rfl⟩ := Option.map_eq_some_iff.mp h
  cases q with
  | nil => exact ⟨[], [], (Option.some.inj hm).symm⟩
  | cons c q =>
      by_cases hquote : c = '\''
      · subst hquote
        have hstep : step (.equals k) '\'' = some (.value .quoted k [], none) := rfl
        rw [parseFrom_cons, hstep, Option.bind_some] at hm
        obtain ⟨m', hm', rfl⟩ := Option.map_eq_some_iff.mp hm
        exact hvalue .quoted [] q m' hm'
      · rw [parseFrom_cons, step_equals (hq c q rfl) hquote, ← parseFrom_cons] at hm
        exact hvalue .plain [] (c :: q) m hm

/-- The name of the setting that is being read, as far as it has been read. -/
def started : State → Option Str
  | .idle => none
  | .name n => some n
  | .named n => some n
  | .equals n => some n
  | .value _ n _ => some n

theorem step_started {σ τ : State} {c : Char} {o : Option Setting} (hσ : started σ = some n)
    (hstep : step σ c = some (τ, o)) :
    (∃ v, o = some (n, v)) ∨ o = none ∧ ∃ n', started τ = some n' ∧ n <+: n' := by
  have hvalue : ∀ mode v, stepValue n v c mode = (τ, o) →
      (∃ v, o = some (n, v)) ∨ o = none ∧ ∃ n', started τ = some n' ∧ n <+: n' := by
    intro mode v hs
    rcases stepValue_cases mode n c with h | ⟨mode', d, -, h⟩
    · obtain ⟨-, rfl⟩ := Prod.mk.inj ((h v).symm.trans hs)
      exact .inl ⟨v, rfl⟩
    · obtain ⟨rfl, rfl⟩ := Prod.mk.inj ((h v).symm.trans hs)
      exact .inr ⟨rfl, n, rfl, List.prefix_refl n⟩
  cases σ with
  | idle => cases hσ
  | name m =>
      obtain rfl := Option.some.inj hσ
      obtain ⟨rfl, rfl⟩ := Prod.mk.inj (Option.some.inj hstep)
      refine .inr ⟨rfl, ?_⟩
      by_cases he : c = '='
      · exact ⟨m, by simp [he, started], List.prefix_refl m⟩
      · by_cases hb : isBlank c = true
        · exact ⟨m, by simp [he, hb, started], List.prefix_refl m⟩
        · exact ⟨m ++ [c], by simp [he, hb, started], List.prefix_append m [c]⟩
  | named m =>
      obtain rfl := Option.some.inj hσ
      rw [step] at hstep
      split at hstep
      · obtain ⟨rfl, rfl⟩ := Prod.mk.inj (Option.some.inj hstep)
        exact .inr ⟨rfl, m, rfl, List.prefix_refl m⟩
      · split at hstep
        · obtain ⟨rfl, rfl⟩ := Prod.mk.inj (Option.some.inj hstep)
          exact .inr ⟨rfl, m, rfl, List.prefix_refl m⟩
        · cases hstep
  | equals m =>
      obtain rfl := Option.some.inj hσ
      rw [step] at hstep
      split at hstep
      · obtain ⟨rfl, rfl⟩ := Prod.mk.inj (Option.some.inj hstep)
        exact .inr ⟨rfl, m, rfl, List.prefix_refl m⟩
      · split at hstep
        · obtain ⟨rfl, rfl⟩ := Prod.mk.inj (Option.some.inj hstep)
          exact .inr ⟨rfl, m, rfl, List.prefix_refl m⟩
        · exact hvalue .plain [] (Option.some.inj hstep)
  | value mode m v =>
      obtain rfl := Option.some.inj hσ
      exact hvalue mode v (Option.some.inj hstep)

/-- **What has been read of a name stays**: the next setting has it. -/
theorem head_of_started {σ : State} (hσ : started σ = some n) (h : parseFrom σ s = some l) :
    ∃ e l', l = e :: l' ∧ n <+: e.1 := by
  induction s generalizing σ n l with
  | nil =>
      cases σ with
      | idle => cases hσ
      | name m => cases h
      | named m => cases h
      | equals m =>
          obtain rfl := Option.some.inj hσ
          obtain rfl := Option.some.inj h
          exact ⟨_, _, rfl, List.prefix_refl m⟩
      | value mode m v =>
          obtain rfl := Option.some.inj hσ
          cases mode with
          | plain =>
              obtain rfl := Option.some.inj h
              exact ⟨_, _, rfl, List.prefix_refl m⟩
          | escaped =>
              obtain rfl := Option.some.inj h
              exact ⟨_, _, rfl, List.prefix_refl m⟩
          | quoted => cases h
          | quotedEscaped => cases h
  | cons c s ih =>
      rw [parseFrom_cons] at h
      obtain ⟨⟨τ, o⟩, hstep, h⟩ := Option.bind_eq_some_iff.mp h
      obtain ⟨m, hm, rfl⟩ := Option.map_eq_some_iff.mp h
      rcases step_started hσ hstep with ⟨v, rfl⟩ | ⟨rfl, n', hτ, hn⟩
      · exact ⟨_, _, rfl, List.prefix_refl n⟩
      · obtain ⟨e, l', rfl, he⟩ := ih hτ hm
        exact ⟨e, l', rfl, hn.trans he⟩

end Bare

end DevDashboard.Lib.Conninfo
