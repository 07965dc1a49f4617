/-
  File:      DevDashboard/StateStore/Spelling.lean
  Subject:   HOW A CONNECTION STRING HAS TO BE SPELLED (`translatePGConnString` of
             `pkg/statestore/translate.go`).

  `TranslatePg` says when a translation changes only the endpoint, of the fields that the source
  cuts. Here it is said of the string itself, as libpq reads it: where its white space stands, and
  how host and port are written.

  * `Undisturbed` -- **the condition**: no word `host=` at all; or tidy white space, single blanks in
    the values that count, and the host and the port that count written as the last words `host=…`
    and `port=…`;
  * `rewritable_of_undisturbed` -- it is enough;
  * `undisturbed_of_rewritable` -- it is necessary for a string that is `Orderly`;
  * `translatePGConnString_right_iff` -- **both**, with URLs;
  * `squeezes_password` -- a password whose two blanks become one.
-/
import DevDashboard.Lib.ConninfoSqueeze
import DevDashboard.StateStore.TranslatePg

namespace DevDashboard.StateStore

open Lib
open Lib.Conninfo (Setting Word Slots ValueText Whole Tidy Kept Spaces setting join lead trail last run
  parse squeeze)
open Lib.NetUrl (HostName PortText)

/-! ## 1. Fields in the text -/

section Texts

variable {A C R f s : Str} {L L' : List Str}

/-- Nothing stands before a text, or white space. -/
def Ends (A : Str) : Prop := ∀ p c, A = p ++ [c] → isSpace c = true

/-- Nothing stands behind a text, or white space. -/
def Begins (C : Str) : Prop := ∀ c r, C = c :: r → isSpace c = true

/-- A text without white space. -/
def Gapless (f : Str) : Prop := ∀ c ∈ f, isSpace c = false

theorem Ends.append (h : Ends (s ++ A)) : Ends A := fun p c hp =>
  h (s ++ p) c (by rw [hp, List.append_assoc])

theorem ends_append (h : Ends A) (hne : A ≠ []) (s : Str) : Ends (s ++ A) := by
  obtain ⟨A', d, rfl⟩ := (List.eq_nil_or_concat A).resolve_left hne
  intro p c hp
  rw [List.concat_eq_append, ← List.append_assoc] at hp
  obtain ⟨-, hd⟩ := List.append_inj' hp rfl
  obtain rfl := (List.cons.inj hd).1
  exact h A' d List.concat_eq_append

/-- Between two texts without white space in them there is some. -/
theorem ne_nil_of_begins (h : Begins (A ++ (f ++ C))) (hne : f ≠ []) (hf : Gapless f) : A ≠ [] := by
  rintro rfl
  cases f with
  | nil => exact hne rfl
  | cons c f =>
      have := h c _ rfl
      rw [hf c List.mem_cons_self] at this
      cases this

/-- **A text that stands by itself is a field.** -/
theorem fields_alone (hA : Ends A) (hC : Begins C) (hne : f ≠ []) (hf : Gapless f) :
    fields (A ++ (f ++ C)) = fields A ++ f :: fields C := by
  have hright : fields (f ++ C) = f :: fields C := by
    cases C with
    | nil => rw [List.append_nil, fields_solid hne hf]; rfl
    | cons c r =>
        have hc := hC c r rfl
        have hskip := fields_append_cons hc [] r
        rw [List.nil_append] at hskip
        rw [fields_append_cons hc, fields_solid hne hf, hskip]
        rfl
  rcases List.eq_nil_or_concat A with rfl | ⟨p, c, rfl⟩
  · rw [List.nil_append, hright]
    rfl
  · have hc := hA p c List.concat_eq_append
    have hlast := fields_append_cons hc p []
    rw [List.concat_eq_append, List.append_assoc, List.singleton_append, fields_append_cons hc, hright,
      hlast]
    simp [fields]

/-- **A text is white space, or has a first field.** -/
theorem fields_cases (s : Str) : (∀ c ∈ s, isSpace c = true) ∧ fields s = [] ∨
    ∃ p f C, s = p ++ (f ++ C) ∧ (∀ c ∈ p, isSpace c = true) ∧ Begins C ∧ f ≠ [] ∧ Gapless f ∧
      fields s = f :: fields C := by
  obtain ⟨p, q, rfl, hp, hq⟩ := Str.exists_span isSpace s
  cases q with
  | nil =>
      refine .inl ⟨fun c hc => hp c (by simpa using hc), ?_⟩
      rw [fields_spaces_append hp]
      rfl
  | cons c q =>
      right
      obtain ⟨g, C, hgC, hg, hC⟩ := Str.exists_span (fun c => !isSpace c) (c :: q)
      have hsolid : Gapless g := fun d hd => by simpa using hg d hd
      have hbegins : Begins C := fun d r hCr => by simpa using hC d r hCr
      have hne : g ≠ [] := by
        rintro rfl
        have := hbegins c q hgC.symm
        rw [hq c q rfl] at this
        cases this
      have hends : Ends [] := fun p c hp => by simp at hp
      have hfields := fields_alone hends hbegins hne hsolid
      rw [List.nil_append] at hfields
      exact ⟨p, g, C, by rw [hgC], hp, hbegins, hne, hsolid,
        by rw [fields_spaces_append hp, hgC, hfields]; rfl⟩

/-- **A field, in the text.** -/
theorem exists_field (h : fields s = L ++ f :: L') : ∃ A C, s = A ++ (f ++ C) ∧ Ends A ∧ Begins C ∧
    f ≠ [] ∧ Gapless f ∧ fields A = L ∧ fields C = L' := by
  have hspaces : ∀ {p : Str}, (∀ c ∈ p, isSpace c = true) → Ends p ∧ fields p = [] := by
    intro p hp
    refine ⟨fun q c hq => hp c (by rw [hq]; simp), ?_⟩
    have := fields_spaces_append hp []
    rwa [List.append_nil] at this
  induction L generalizing s with
  | nil =>
      rcases fields_cases s with ⟨-, hnil⟩ | ⟨p, g, C, rfl, hp, hC, hne, hg, hfields⟩
      · rw [hnil] at h
        cases h
      · obtain ⟨rfl, rfl⟩ := List.cons.inj (hfields.symm.trans h)
        exact ⟨p, C, rfl, (hspaces hp).1, hC, hne, hg, (hspaces hp).2, rfl⟩
  | cons e L ih =>
      rcases fields_cases s with ⟨-, hnil⟩ | ⟨p, g, C, rfl, hp, hC, hne, hg, hfields⟩
      · rw [hnil] at h
        cases h
      · obtain ⟨rfl, hrest⟩ := List.cons.inj (hfields.symm.trans h)
        obtain ⟨A, C', rfl, hA, hC', hne', hf, rfl, rfl⟩ := ih hrest
        have hbegins : Begins A := by
          rintro c r rfl
          exact hC c _ rfl
        have hAne : A ≠ [] := ne_nil_of_begins hC hne' hf
        refine ⟨p ++ (g ++ A), C', by simp, ?_, hC', hne', hf, ?_, rfl⟩
        · rw [← List.append_assoc]
          exact ends_append hA hAne (p ++ g)
        · rw [fields_alone (hspaces hp).1 hbegins hne hg, (hspaces hp).2]
          rfl

/-- **Cutting and joining squeezes the white space**, with a blank behind every field. -/
theorem squeeze_lead (s : Str) : squeeze isSpace true (s ++ [' ']) = lead (fields s) := by
  have hblank : isSpace ' ' = true := by decide
  generalize hL : fields s = L
  induction L generalizing s with
  | nil =>
      rcases fields_cases s with ⟨hs, -⟩ | ⟨p, f, C, -, -, -, -, -, hfields⟩
      · rw [Conninfo.squeeze_spaces hs, (Conninfo.squeeze_cons_space hblank).1]
        rfl
      · rw [hL] at hfields
        cases hfields
  | cons g L ih =>
      rcases fields_cases s with ⟨-, hnil⟩ | ⟨p, f, C, rfl, hp, hC, hne, hf, hfields⟩
      · rw [hL] at hnil
        cases hnil
      · obtain ⟨rfl, hrest⟩ := List.cons.inj (hL.symm.trans hfields)
        have hgap : squeeze isSpace false (C ++ [' ']) = ' ' :: squeeze isSpace true (C ++ [' ']) := by
          cases C with
          | nil => rw [List.nil_append, (Conninfo.squeeze_cons_space hblank).2,
              (Conninfo.squeeze_cons_space hblank).1]
          | cons c r =>
              have hc := Conninfo.squeeze_cons_space (s := r ++ [' ']) (hC c r rfl)
              rw [List.cons_append, hc.2, hc.1]
        rw [List.append_assoc, Conninfo.squeeze_spaces hp, List.append_assoc,
          Conninfo.squeeze_solid hne hf, hgap, ih C hrest.symm]
        simp [lead]

theorem behind_of_ends (h : Ends A) : Conninfo.behind isSpace true A = true := by
  rcases List.eq_nil_or_concat A with rfl | ⟨p, c, rfl⟩
  · rfl
  · rw [List.concat_eq_append, Conninfo.behind, List.getLast?_concat]
    exact h p c List.concat_eq_append

/-- Up to white space, the blank is there already. -/
theorem squeeze_of_ends (h : Ends A) : squeeze isSpace true A = lead (fields A) := by
  rw [← squeeze_lead, Conninfo.squeeze_append, behind_of_ends h]
  simp [squeeze, show isSpace ' ' = true by decide]

/-- Without white space at the end, the fields are joined. -/
theorem squeeze_join (h : ∀ p c, s = p ++ [c] → isSpace c = false) :
    squeeze isSpace true s = join (fields s) := by
  rcases List.eq_nil_or_concat s with rfl | ⟨p, c, rfl⟩
  · rfl
  · have hc := h p c List.concat_eq_append
    rw [List.concat_eq_append] at *
    have hbehind : Conninfo.behind isSpace true (p ++ [c]) = false := by
      rw [Conninfo.behind, List.getLast?_concat]
      exact hc
    have hlead := squeeze_lead (p ++ [c])
    have hblank : squeeze isSpace false [' '] = [' '] := by decide
    rw [Conninfo.squeeze_append, hbehind, hblank] at hlead
    have hne : fields (p ++ [c]) ≠ [] := by
      intro hnil
      rw [hnil] at hlead
      exact absurd hlead (by simp [lead])
    rw [Conninfo.lead_eq_join hne] at hlead
    exact List.append_cancel_right hlead

end Texts

/-! ## 2. The spelling of host and port -/

/-- `host=` stands nowhere at the start of a word. -/
def NoHost (s : Str) : Prop := ∀ A r, s = A ++ setting hostKey r → ¬ Ends A

/-- No word is `port=` and a number. -/
def NoPort (s : Str) : Prop :=
  ∀ A v C, s = A ++ (setting portKey v ++ C) → Ends A → Begins C → parseInt v = none

/-- **A word `k=v` between `A` and `C` that is a setting and counts**: before it whole settings, its
    value as it is written, and `k` not set again behind it. -/
structure Place (A k v C : Str) : Prop where
  ends : Ends A
  begins : Begins C
  gapless : Gapless v
  whole : ∃ l, run .idle A = some (l, .idle)
  value : ValueText k v v C
  counts : ∀ m, parse C = some m → k ∉ m.map Prod.fst

/-- **Where host and port stand**: the last word `host=…` and the last word `port=…` with a number
    are the settings that count; or there is no such `port`, the port is the default, and behind the
    text another setting can stand. -/
inductive Spelled (cs : Str) (m : List Setting) : Prop
  | hostPort {A h B v C : Str}
      (text : cs = A ++ (setting hostKey h ++ (B ++ (setting portKey v ++ C))))
      (host : Place A hostKey h (B ++ (setting portKey v ++ C)))
      (port : Place B portKey v C)
      (number : parseInt v ≠ none) (lastHost : NoHost (B ++ (setting portKey v ++ C)))
      (lastPort : NoPort C)
  | portHost {A v B h C : Str}
      (text : cs = A ++ (setting portKey v ++ (B ++ (setting hostKey h ++ C))))
      (port : Place A portKey v (B ++ (setting hostKey h ++ C)))
      (host : Place B hostKey h C)
      (number : parseInt v ≠ none) (lastHost : NoHost C)
      (lastPort : NoPort (B ++ (setting hostKey h ++ C)))
  | hostOnly {A h C : Str} (text : cs = A ++ (setting hostKey h ++ C))
      (host : Place A hostKey h C) (lastHost : NoHost C) (noPort : NoPort cs)
      (default : effectivePort m = some defaultPgPort)
      (whole : ∃ l, run .idle (C ++ [' ']) = some (l, .idle))

/-- **When a connection string with the settings `m` is not disturbed.** -/
def Undisturbed (cs : Str) (m : List Setting) : Prop :=
  NoHost cs ∨ Tidy isSpace .idle cs ∧
    (∀ k, k ≠ hostKey → k ≠ portKey → Kept isSpace k true .idle cs) ∧ Spelled cs m

/-- The last word `host=…`, read as a setting, ends with its value. -/
def ClosedHost (s : Str) : Prop :=
  ∀ A h R, s = A ++ (setting hostKey h ++ R) → Ends A → Begins R → Gapless h → NoHost R →
    ∃ w, ValueText hostKey h w R

/-- **Strings of which the condition is exact**: their white space is tidy, and the host is set once
    at most, or the last word `host=…` ends with its value. -/
def Orderly (cs : Str) (m : List Setting) : Prop :=
  Tidy isSpace .idle cs ∧ ((m.map Prod.fst).count hostKey ≤ 1 ∨ ClosedHost cs)

section Words

variable {s v : Str} {n : Int}

theorem spaces_isSpace : Spaces isSpace where
  blank c h := by
    rw [Conninfo.isBlank, decide_eq_true_eq] at h
    simp only [List.mem_cons, List.not_mem_nil, or_false] at h
    rcases h with rfl | rfl | rfl | rfl | rfl | rfl <;> decide
  quote := by decide
  backslash := by decide

theorem gapless_append {a b : Str} (ha : Gapless a) (hb : Gapless b) : Gapless (a ++ b) := fun c hc =>
  (List.mem_append.mp hc).elim (ha c) (hb c)

theorem gapless_setting {k : Str} (hk : Gapless k) (hv : Gapless v) : Gapless (setting k v) :=
  gapless_append hk fun c hc => by
    rcases List.mem_cons.mp hc with rfl | hc
    · decide
    · exact hv c hc

theorem gapless_of_all (h : v.all (fun c => !isSpace c) = true) : Gapless v := fun c hc => by
  simpa using List.all_eq_true.mp h c hc

theorem gapless_hostKey : Gapless hostKey := gapless_of_all (by decide)

theorem gapless_portKey : Gapless portKey := gapless_of_all (by decide)

/-- A number is a word. -/
theorem word_of_parseInt (h : parseInt v = some n) : Word v ∧ Gapless v := by
  have hchar : ∀ c ∈ v, c = '-' ∨ c = '+' ∨ c.isDigit = true := by
    by_cases hdigits : (signed v).2 = [] ∨ (signed v).2.all Char.isDigit = false
    · simp only [parseInt, if_pos hdigits] at h
      cases h
    · have hall := Bool.eq_true_of_not_eq_false (not_or.mp hdigits).2
      intro c hc
      unfold signed at hall
      split at hall
      · rcases List.mem_cons.mp hc with rfl | hc
        · exact .inl rfl
        · exact .inr (.inr (List.all_eq_true.mp hall c hc))
      · rcases List.mem_cons.mp hc with rfl | hc
        · exact .inr (.inl rfl)
        · exact .inr (.inr (List.all_eq_true.mp hall c hc))
      · exact .inr (.inr (List.all_eq_true.mp hall c hc))
  refine ⟨⟨?_, fun c hc => ?_⟩, fun c hc => ?_⟩
  · rintro rfl
    cases h
  · rcases hchar c hc with rfl | rfl | hd
    · decide
    · decide
    · exact plain_of_isHostChar (NetUrl.isHostChar_of_isDigit hd)
  · rcases hchar c hc with rfl | rfl | hd
    · decide
    · decide
    · obtain ⟨hlo, hhi⟩ : 48 ≤ c.toNat ∧ c.toNat ≤ 57 := by
        simpa [Char.isDigit, UInt32.le_iff_toNat_le] using hd
      simp [isSpace]
      omega

/-- `NoHost`, of the fields. -/
theorem noHost_iff : NoHost s ↔ ∀ f ∈ fields s, ¬ IsHost f := by
  constructor
  · rintro h f hf ⟨v, rfl⟩
    obtain ⟨L, R, hL⟩ := List.append_of_mem hf
    obtain ⟨A, C, hs, hA, -⟩ := exists_field hL
    exact h A (v ++ C) (by rw [hs]; simp [setting]) hA
  · rintro h A r rfl hA
    obtain ⟨v, C, rfl, hv, hC⟩ := Str.exists_span (fun c => !isSpace c) r
    have hsolid : Gapless (setting hostKey v) :=
      gapless_setting gapless_hostKey fun c hc => by simpa using hv c hc
    have hfield := fields_alone hA (fun c r hr => by simpa using hC c r hr) (by simp [setting]) hsolid
    refine h (setting hostKey v) ?_ ⟨v, rfl⟩
    have htext : setting hostKey (v ++ C) = setting hostKey v ++ C := by simp [setting]
    rw [htext, hfield]
    simp

/-- `NoPort`, of the fields. -/
theorem noPort_iff : NoPort s ↔ ∀ f ∈ fields s, ¬ IsPort f := by
  constructor
  · rintro h f hf ⟨v, n, rfl, hn⟩
    obtain ⟨L, R, hL⟩ := List.append_of_mem hf
    obtain ⟨A, C, hs, hA, hC, -⟩ := exists_field hL
    rw [h A v C hs hA hC] at hn
    cases hn
  · rintro h A v C rfl hA hC
    cases hn : parseInt v with
    | none => rfl
    | some n =>
        have hsolid := gapless_setting gapless_portKey (word_of_parseInt hn).2
        have hfield := fields_alone hA hC (by simp [setting]) hsolid
        exact absurd ⟨v, n, rfl, hn⟩ (h (setting portKey v) (by rw [hfield]; simp))

end Words

/-! ## 3. Both texts, read side by side -/

/-- A name of a setting as the source looks for it. -/
structure Key (k : Str) : Prop where
  word : Word k
  gapless : Gapless k

theorem key_host : Key hostKey := ⟨word_hostKey, gapless_hostKey⟩

theorem key_port : Key portKey := ⟨word_portKey, gapless_portKey⟩

section Read

variable {A B C R s t k v : Str} {l l' r m : List Setting} {τ : Conninfo.State}

theorem ready_idle {b : Bool} : Conninfo.Ready isSpace b .idle s := fun _ => .inl trivial

/-- The fields up to white space. -/
theorem run_lead (htidy : Tidy isSpace .idle (A ++ t)) (hA : Ends A)
    (hrun : run .idle A = some (l, τ)) : ∃ l' τ', run .idle (lead (fields A)) = some (l', τ') ∧
      Conninfo.Twin τ τ' ∧ l'.map Prod.fst = l.map Prod.fst := by
  obtain ⟨l', τ', h, htwin, hnames, -⟩ :=
    Conninfo.run_squeeze spaces_isSpace .idle htidy (ready_idle (b := true)) hrun
  rw [squeeze_of_ends hA] at h
  exact ⟨l', τ', h, htwin, hnames⟩

/-- **The joined fields have the same names, and of each name the same value exactly if its white
    space is kept.** -/
theorem parse_fields (htidy : Tidy isSpace .idle s) (hm : parse s = some m) :
    ∃ m', parse (join (fields s)) = some m' ∧ m'.map Prod.fst = m.map Prod.fst ∧
      ∀ k, last m' k = last m k ↔ Kept isSpace k true .idle s := by
  obtain ⟨p, q, hs, hp, hq⟩ := Str.exists_span isSpace s.reverse
  have hs : s = q.reverse ++ p.reverse := by
    rw [← List.reverse_append, ← hs, List.reverse_reverse]
  have hp' : ∀ c ∈ p.reverse, isSpace c = true := fun c hc => hp c (List.mem_reverse.mp hc)
  have hend : ∀ u c, q.reverse = u ++ [c] → isSpace c = false := by
    intro u c hu
    refine hq c u.reverse ?_
    rw [← List.reverse_reverse q, hu]
    simp
  subst hs
  have hm' := Conninfo.parseFrom_trim spaces_isSpace hp' htidy hm
  obtain ⟨m', h, hnames, hlast⟩ :=
    Conninfo.parseFrom_squeeze spaces_isSpace .idle (htidy.trim hp') (ready_idle (b := true)) hm'
  rw [squeeze_join hend] at h
  refine ⟨m', by rw [fields_append_spaces hp']; exact h, hnames, fun k => ?_⟩
  rw [hlast k, Conninfo.kept_trim spaces_isSpace hp' htidy hm]
  exact and_iff_right fun _ v h => h

/-- **A setting, and what stands behind it.** -/
theorem read_on {w : Str} (hk : Key k) (hrun : run .idle A = some (l, .idle))
    (hv : ValueText k v w R) (hR : Begins R) (htidy : Tidy isSpace .idle (A ++ (setting k v ++ R)))
    (hm : parse (A ++ (setting k v ++ R)) = some m) :
    ∃ r, parse R = some r ∧ m = l ++ (k, w) :: r ∧ Tidy isSpace .idle R := by
  rw [parse, Conninfo.parseFrom_append, hrun, Option.bind_some, ← parse,
    Conninfo.parse_setting hk.word hv] at hm
  obtain ⟨m', hm', rfl⟩ := Option.map_eq_some_iff.mp hm
  obtain ⟨r, hr, rfl⟩ := Option.map_eq_some_iff.mp hm'
  have hequals := htidy.append hrun
  rw [Conninfo.setting_append] at hequals
  exact ⟨r, hr, rfl, (hequals.append (Conninfo.run_key hk.word)).behind_value hv hR⟩

/-- A value that is its own text is one before the fields, too. -/
theorem valueText_trail (h : ValueText k v v R) : ValueText k v v (trail (fields R)) := by
  refine h.before (Conninfo.blank_trail _) fun hblank => ?_
  have hnil : fields R = [] := by
    have := fields_spaces_append (fun c hc => spaces_isSpace.blank c (hblank c hc)) []
    rwa [List.append_nil] at this
  rw [hnil]
  simp [trail]

/-- Where another setting can stand behind a text, it can behind the fields. -/
theorem whole_iff (htidy : Tidy isSpace .idle C) (hr : parse C = some r) :
    (∃ l, run .idle (C ++ [' ']) = some (l, .idle)) ↔ ∃ l, Whole (fields C) l := by
  have hrun : ∃ l τ, run .idle C = some (l, τ) := by
    obtain ⟨l, τ, -, hrun, -⟩ := Conninfo.exists_run_of_parseFrom (a := C) (b := [])
      (by rw [List.append_nil]; exact hr)
    exact ⟨l, τ, hrun⟩
  obtain ⟨l, τ, hrun⟩ := hrun
  obtain ⟨l₁, l₁', τ₁, τ₁', h, h', htwin, -⟩ := Conninfo.run_squeeze_blank spaces_isSpace .idle htidy
    (ready_idle (b := true)) hrun
  rw [squeeze_lead] at h'
  simp only [Whole, h, h', Option.some.injEq, Prod.mk.injEq]
  cases htwin <;> simp

end Read

/-! ## 4. Enough -/

section Enough

variable {A B C R cs k k₁ k₂ v v₁ v₂ : Str} {m r : List Setting}

/-- A place in the text is one in the fields. -/
theorem Place.fields_eq (h : Place A k v R) (hk : Key k) :
    fields (A ++ (setting k v ++ R)) = fields A ++ setting k v :: fields R :=
  fields_alone h.ends h.begins (by simp [setting]) (gapless_setting hk.gapless h.gapless)

/-- **A place, in both texts.** -/
theorem Place.read (h : Place A k v R) (hk : Key k)
    (htidy : Tidy isSpace .idle (A ++ (setting k v ++ R)))
    (hm : parse (A ++ (setting k v ++ R)) = some m) :
    ∃ l l' r, Whole (fields A) l' ∧ l'.map Prod.fst = l.map Prod.fst ∧ parse R = some r ∧
      m = l ++ (k, v) :: r ∧ k ∉ r.map Prod.fst ∧ Tidy isSpace .idle R := by
  obtain ⟨l, hrun⟩ := h.whole
  obtain ⟨l', τ', hlead, htwin, hnames⟩ := run_lead htidy h.ends hrun
  obtain ⟨r, hr, hlr, htidy'⟩ := read_on hk hrun h.value h.begins htidy hm
  cases htwin
  exact ⟨l, l', r, hlead, hnames, hr, hlr, h.counts r hr, htidy'⟩

theorem last_place {l : List Setting} (h : k ∉ r.map Prod.fst) :
    last (l ++ (k, v) :: r) k = some v := by
  rw [Conninfo.last_append, Conninfo.last_cons, Conninfo.last_eq_none_iff.mpr h, if_pos rfl]
  rfl

theorem not_mem_middle {k' : Str} {l : List Setting} :
    k ∉ (l ++ (k', v) :: r).map Prod.fst ↔ k ≠ k' ∧ k ∉ (l ++ r).map Prod.fst := by
  simp only [List.map_append, List.map_cons, List.mem_append, List.mem_cons, not_or]
  exact and_left_comm

/-- **Two places in the text are two in the fields.** -/
theorem slots_of_places (hk₁ : Key k₁) (hk₂ : Key k₂)
    (hcs : cs = A ++ (setting k₁ v₁ ++ (B ++ (setting k₂ v₂ ++ C))))
    (h₁ : Place A k₁ v₁ (B ++ (setting k₂ v₂ ++ C))) (h₂ : Place B k₂ v₂ C)
    (htidy : Tidy isSpace .idle cs) (hm : parse cs = some m)
    (hkept : ∀ k, k ≠ k₁ → k ≠ k₂ → Kept isSpace k true .idle cs) :
    Slots k₁ k₂ (fields A) (fields B) (fields C) (last m) ∧ last m k₁ = some v₁ ∧
      last m k₂ = some v₂ := by
  obtain ⟨m', hm', -, hlast⟩ := parse_fields htidy hm
  subst hcs
  obtain ⟨s₀, s₀', r, hw₀, hn₀, hr, rfl, hk₁r, htidy'⟩ := h₁.read hk₁ htidy hm
  obtain ⟨s₁, s₁', s₂, hw₁, hn₁, hs₂, rfl, hk₂s, htidy''⟩ := h₂.read hk₂ htidy' hr
  obtain ⟨s₂', hs₂', hn₂, -⟩ := parse_fields htidy'' hs₂
  have hv₁ := valueText_trail h₁.value
  rw [h₁.fields_eq hk₁, h₂.fields_eq hk₂] at hm'
  rw [h₂.fields_eq hk₂] at hv₁
  have hslots := Conninfo.parse_slots hw₀ hw₁ hs₂' hk₁.word hk₂.word hv₁ (valueText_trail h₂.value)
  obtain rfl := Option.some.inj (hm'.symm.trans hslots)
  refine ⟨⟨s₀', s₁', s₂', hw₀, hw₁, hs₂', ?_, ?_, fun k hk hk' => ?_⟩, last_place hk₁r, ?_⟩
  · rw [List.map_append, hn₁, hn₂, ← List.map_append]
    exact (not_mem_middle.mp hk₁r).2
  · rwa [hn₂]
  · rw [← (hlast k).mpr (hkept k hk hk'), Conninfo.last_slots_of_ne hk hk']
  · have hcons : s₀ ++ (k₁, v₁) :: (s₁ ++ (k₂, v₂) :: s₂) =
        (s₀ ++ (k₁, v₁) :: s₁) ++ (k₂, v₂) :: s₂ := by simp
    rw [hcons, last_place hk₂s]

/-- One place in the text is one in the fields, with room for another setting behind it. -/
theorem slots_of_place (k' : Str) (hk : Key k) (hcs : cs = A ++ (setting k v ++ C))
    (h : Place A k v C) (hwhole : ∃ l, run .idle (C ++ [' ']) = some (l, .idle))
    (htidy : Tidy isSpace .idle cs) (hm : parse cs = some m)
    (hkept : ∀ k₁, k₁ ≠ k → k₁ ≠ k' → Kept isSpace k₁ true .idle cs) :
    Slots k k' (fields A) (fields C) [] (last m) ∧ last m k = some v := by
  obtain ⟨m', hm', -, hlast⟩ := parse_fields htidy hm
  subst hcs
  obtain ⟨s₀, s₀', r, hw₀, -, hr, rfl, hkr, htidy'⟩ := h.read hk htidy hm
  obtain ⟨s₁', hw₁⟩ := (whole_iff htidy' hr).mp hwhole
  obtain ⟨r', hr', hn, -⟩ := parse_fields htidy' hr
  obtain rfl := Option.some.inj (hw₁.parse.symm.trans hr')
  rw [h.fields_eq hk, Conninfo.parse_place hw₀ hk.word (valueText_trail h.value), hr'] at hm'
  obtain rfl := Option.some.inj hm'
  refine ⟨⟨s₀', s₁', [], hw₀, hw₁, rfl, ?_, by simp, fun k₁ hk₁ hk₂ => ?_⟩, last_place hkr⟩
  · rwa [List.append_nil, hn]
  · rw [← (hlast k₁).mpr (hkept k₁ hk₁ hk₂), List.append_nil, Conninfo.last_append,
      Conninfo.last_append, Conninfo.last_cons, if_neg hk₁, Option.or_none]

theorem trimBlanks_of_solid {s : Str} (h : ∀ c ∈ s, Conninfo.isBlank c = false) :
    trimBlanks s = s := by
  have hdrop : ∀ {t : Str}, (∀ c ∈ t, Conninfo.isBlank c = false) → t.dropWhile Conninfo.isBlank = t := by
    intro t ht
    cases t with
    | nil => rfl
    | cons c t => exact List.dropWhile_cons_of_neg (by simp [ht c List.mem_cons_self])
  rw [trimBlanks, hdrop h, hdrop fun c hc => h c (List.mem_reverse.mp hc), List.reverse_reverse]

/-- The port that counts is the one that is read. -/
theorem effectivePort_of_last {n : Int} (hv : parseInt v = some n) (h : last m portKey = some v) :
    effectivePort m = some n := by
  obtain ⟨⟨hne, hplain⟩, -⟩ := word_of_parseInt hv
  cases v with
  | nil => exact absurd rfl hne
  | cons c v =>
      simp only [effectivePort, h]
      rw [trimBlanks_of_solid fun d hd => (hplain d hd).1, hv]

/-- **The condition is enough.** -/
theorem rewritable_of_undisturbed (hm : parse cs = some m) (h : Undisturbed cs m) :
    Rewritable cs m := by
  rcases h with hnone | ⟨htidy, hkept, hspelled⟩
  · exact .inl (noHost_iff.mp hnone)
  · right
    cases hspelled with
    | @hostPort A h B v C htext hhost hport hnumber hlastHost hlastPort =>
        obtain ⟨n, hn⟩ := Option.ne_none_iff_exists'.mp hnumber
        obtain ⟨hslots, hh, hv⟩ := slots_of_places key_host key_port htext hhost hport htidy hm hkept
        have hR := hport.fields_eq key_port
        have hfs := hhost.fields_eq key_host
        rw [hR, ← htext] at hfs
        have hlast := noHost_iff.mp hlastHost
        rw [hR] at hlast
        exact ⟨true, h, n, _, _, _, .hostPort hfs hn (forall_mem_middle.mp hlast).2
          (noPort_iff.mp hlastPort), hh, effectivePort_of_last hn hv, hslots⟩
    | @portHost A v B h C htext hport hhost hnumber hlastHost hlastPort =>
        obtain ⟨n, hn⟩ := Option.ne_none_iff_exists'.mp hnumber
        obtain ⟨hslots, hv, hh⟩ := slots_of_places key_port key_host htext hport hhost htidy hm
          fun k hk hk' => hkept k hk' hk
        have hR := hhost.fields_eq key_host
        have hfs := hport.fields_eq key_port
        rw [hR, ← htext] at hfs
        have hlast := noPort_iff.mp hlastPort
        rw [hR] at hlast
        exact ⟨false, h, n, _, _, _, .portHost hfs hn (noHost_iff.mp hlastHost)
          (forall_mem_middle.mp hlast).2, hh, effectivePort_of_last hn hv, hslots⟩
    | @hostOnly A h C htext hhost hlastHost hnoPort hdefault hwhole =>
        obtain ⟨hslots, hh⟩ := slots_of_place portKey key_host htext hhost hwhole htidy hm hkept
        have hfs := hhost.fields_eq key_host
        rw [← htext] at hfs
        have hports := noPort_iff.mp hnoPort
        rw [hfs] at hports
        exact ⟨true, h, _, _, _, [], .hostOnly hfs (noHost_iff.mp hlastHost)
          (forall_mem_middle.mp hports).2, hh, hdefault, hslots⟩

end Enough

/-! ## 5. Necessary -/

section Necessary

variable {A B C R cs h k k₁ k₂ v v₁ v₂ : Str} {m l l' r : List Setting} {n : Int}

/-- What stands before a place in the fields is read to its end in the text. -/
theorem exists_equals (hk : Key k) (hA : Ends A)
    (htidy : Tidy isSpace .idle (A ++ (setting k v ++ R)))
    (hm : parse (A ++ (setting k v ++ R)) = some m) (hw : Whole (fields A) l') :
    ∃ l r, run .idle A = some (l, .idle) ∧ l'.map Prod.fst = l.map Prod.fst ∧ m = l ++ r ∧
      Conninfo.parseFrom (.equals k) (v ++ R) = some r ∧ Tidy isSpace (.equals k) (v ++ R) := by
  obtain ⟨l, τ, r, hrun, hr, rfl⟩ := Conninfo.exists_run_of_parseFrom hm
  obtain ⟨l'', τ', hlead, htwin, hnames⟩ := run_lead htidy hA hrun
  obtain ⟨rfl, rfl⟩ := Prod.mk.inj (Option.some.inj (hw.symm.trans hlead))
  cases htwin
  have hequals := htidy.append hrun
  rw [Conninfo.setting_append] at hequals hr
  rw [Conninfo.parseFrom_append, Conninfo.run_key hk.word, Option.bind_some] at hr
  obtain ⟨r', hr', rfl⟩ := Option.map_eq_some_iff.mp hr
  exact ⟨l, r', hrun, hnames, rfl, hr', hequals.append (Conninfo.run_key hk.word)⟩

/-- A port that is a number is its own text. -/
theorem value_port (hv : parseInt v = some n) (hR : Begins R)
    (htidy : Tidy isSpace (.equals k) (v ++ R)) : ValueText k v v R := by
  obtain ⟨⟨hne, hplain⟩, -⟩ := word_of_parseInt hv
  cases v with
  | nil => exact absurd rfl hne
  | cons c v =>
      have hrun := Conninfo.run_equals (n := k) fun d hd => ⟨(hplain d hd).1, (hplain d hd).2.2⟩
      have hc := hplain c List.mem_cons_self
      refine .bare hc.1 hc.2.2.1 hrun ?_
      cases R with
      | nil => exact .inl rfl
      | cons d q => exact .inr ⟨d, q, rfl, (htidy.append hrun).head (hR d q rfl)⟩

/-- The first field of a text that begins with a character that is no white space. -/
theorem fields_cons {c : Char} {q : Str} (hc : isSpace c = false) :
    ∃ g L, fields (c :: q) = (c :: g) :: L := by
  rcases fields_cases (c :: q) with ⟨hs, -⟩ | ⟨p, f, C, hq, hp, -, hne, -, hfields⟩
  · rw [hs c List.mem_cons_self] at hc
    cases hc
  · cases p with
    | cons d p =>
        have := hp d List.mem_cons_self
        rw [← (List.cons.inj hq).1, hc] at this
        cases this
    | nil =>
        cases f with
        | nil => exact absurd rfl hne
        | cons d f =>
            obtain ⟨rfl, -⟩ := List.cons.inj hq
            exact ⟨f, _, hfields⟩

/-- **The text of the host that counts is its own**, if it is set once and no field behind it begins
    with a quote or a backslash, or if its value ends with the word and it is not set again in the
    fields behind it. -/
theorem value_host (hh : Gapless h) (hR : Begins R) (htidy : Tidy isSpace (.equals k) (h ++ R))
    (hm : m = l ++ r) (hr : Conninfo.parseFrom (.equals k) (h ++ R) = some r)
    (hlast : last m k = some h)
    (hclosed : (m.map Prod.fst).count k ≤ 1 ∨ ∃ w, ValueText k h w R)
    (hclean : ∀ c g L, fields R = (c :: g) :: L → c ≠ '\'' ∧ c ≠ '\\')
    (hcounts : ∀ r, parse (join (fields R)) = some r → k ∉ r.map Prod.fst) : ValueText k h h R := by
  rcases hclosed with honce | ⟨w, hw⟩
  · obtain ⟨V, r', rfl⟩ := Conninfo.exists_of_equals hr
    have hnot : k ∉ r'.map Prod.fst := by
      rw [hm, List.map_append, List.map_cons, List.count_append, List.count_cons_self] at honce
      exact List.count_eq_zero.mp (by omega)
    rw [hm, last_place hnot] at hlast
    obtain rfl := Option.some.inj hlast
    rcases Conninfo.valueText_of_parseFrom spaces_isSpace hh hR htidy hr with
      hv | ⟨rfl, p, c, q, rfl, hp, -, hc⟩
    · exact hv
    · have hspace : isSpace c = false := by
        rcases hc with rfl | rfl <;> decide
      obtain ⟨g, L, hfields⟩ := fields_cons (q := q) hspace
      have hclean := hclean c g L
        (by rw [fields_spaces_append fun d hd => spaces_isSpace.blank d (hp d hd), hfields])
      exact absurd hc (not_or.mpr hclean)
  · rw [hw.parseFrom] at hr
    obtain ⟨r', hr', rfl⟩ := Option.map_eq_some_iff.mp hr
    obtain ⟨r'', hr'', hnames, -⟩ := parse_fields (htidy.behind_value hw hR) hr'
    have hnot : k ∉ r'.map Prod.fst := hnames ▸ hcounts r'' hr''
    rw [hm, last_place hnot] at hlast
    obtain rfl := Option.some.inj hlast
    exact hw

/-- A connection string whose names are words does not begin with a quote or a backslash. -/
theorem clean_of_parse {L L' : List Str} {c : Char} {g : Str} (hr : parse (join L) = some r)
    (hwords : ∀ e ∈ r, Word e.1) (hL : L = (c :: g) :: L') : c ≠ '\'' ∧ c ≠ '\\' := by
  refine not_or.mp fun hc => ?_
  have hstep : Conninfo.step .idle c = some (.name [c], none) := by
    rcases hc with rfl | rfl <;> rfl
  rw [hL, Conninfo.join_cons, List.cons_append, parse, Conninfo.parseFrom_cons, hstep,
    Option.bind_some] at hr
  obtain ⟨r', hr', rfl⟩ := Option.map_eq_some_iff.mp hr
  obtain ⟨e, l, rfl, he⟩ := Conninfo.head_of_started (n := [c]) rfl hr'
  have hplain := (hwords e List.mem_cons_self).2 c (he.subset List.mem_cons_self)
  rcases hc with rfl | rfl
  · exact hplain.2.2.1 rfl
  · exact hplain.2.2.2 rfl

/-- **Two places in the fields are two in the text.** -/
theorem places_of_slots (hk₁ : Key k₁) (hk₂ : Key k₂) (hne : k₁ ≠ k₂)
    (hcs : cs = A ++ (setting k₁ v₁ ++ (B ++ (setting k₂ v₂ ++ C)))) (hA : Ends A)
    (hR : Begins (B ++ (setting k₂ v₂ ++ C))) (hB : Ends B) (hC : Begins C) (hv₁ : Gapless v₁)
    (hv₂ : Gapless v₂) (htidy : Tidy isSpace .idle cs) (hm : parse cs = some m)
    (hslots : Slots k₁ k₂ (fields A) (fields B) (fields C) (last m))
    (hvalue₁ : ∀ l r, m = l ++ r → Tidy isSpace (.equals k₁) (v₁ ++ (B ++ (setting k₂ v₂ ++ C))) →
      Conninfo.parseFrom (.equals k₁) (v₁ ++ (B ++ (setting k₂ v₂ ++ C))) = some r →
      ValueText k₁ v₁ v₁ (B ++ (setting k₂ v₂ ++ C)))
    (hvalue₂ : ∀ l r, m = l ++ r → Tidy isSpace (.equals k₂) (v₂ ++ C) →
      Conninfo.parseFrom (.equals k₂) (v₂ ++ C) = some r → ValueText k₂ v₂ v₂ C) :
    Place A k₁ v₁ (B ++ (setting k₂ v₂ ++ C)) ∧ Place B k₂ v₂ C ∧
      ∀ k, k ≠ k₁ → k ≠ k₂ → Kept isSpace k true .idle cs := by
  obtain ⟨s₀', s₁', s₂', hw₀, hw₁, hs₂', hk₁s, hk₂s, hrest⟩ := hslots
  obtain ⟨m', hm', -, hlast⟩ := parse_fields htidy hm
  subst hcs
  -- the first place
  obtain ⟨s₀, r₁, hrun₀, -, hr₁, hparse₁, htidy₁⟩ := exists_equals hk₁ hA htidy hm hw₀
  have hval₁ := hvalue₁ s₀ r₁ hr₁ htidy₁ hparse₁
  obtain ⟨r, hr, hmr, htidyR⟩ := read_on hk₁ hrun₀ hval₁ hR htidy hm
  -- the second place
  obtain ⟨s₁, r₂, hrun₁, hn₁, hr₂, hparse₂, htidy₂⟩ := exists_equals hk₂ hB htidyR hr hw₁
  have hval₂ := hvalue₂ (s₀ ++ (k₁, v₁) :: s₁) r₂ (by rw [hmr, hr₂]; simp) htidy₂ hparse₂
  obtain ⟨s₂, hs₂, hrs, htidyC⟩ := read_on hk₂ hrun₁ hval₂ hC htidyR hr
  obtain ⟨s₂'', hs₂'', hn₂, -⟩ := parse_fields htidyC hs₂
  obtain rfl := Option.some.inj (hs₂'.symm.trans hs₂'')
  have hplace₂ : Place B k₂ v₂ C := by
    refine ⟨hB, hC, hv₂, ⟨s₁, hrun₁⟩, hval₂, fun x hx => ?_⟩
    obtain rfl := Option.some.inj (hs₂.symm.trans hx)
    rwa [← hn₂]
  have hplace₁ : Place A k₁ v₁ (B ++ (setting k₂ v₂ ++ C)) := by
    refine ⟨hA, hR, hv₁, ⟨s₀, hrun₀⟩, hval₁, fun x hx => ?_⟩
    obtain rfl := Option.some.inj (hr.symm.trans hx)
    rw [List.map_append, hn₁, hn₂, ← List.map_append] at hk₁s
    rw [hrs]
    exact not_mem_middle.mpr ⟨hne, hk₁s⟩
  refine ⟨hplace₁, hplace₂, fun k hk hk' => (hlast k).mp ?_⟩
  have htrail₁ := valueText_trail hval₁
  rw [hplace₁.fields_eq hk₁, hplace₂.fields_eq hk₂] at hm'
  rw [hplace₂.fields_eq hk₂] at htrail₁
  have := Conninfo.parse_slots hw₀ hw₁ hs₂' hk₁.word hk₂.word htrail₁ (valueText_trail hval₂)
  obtain rfl := Option.some.inj (hm'.symm.trans this)
  rw [Conninfo.last_slots_of_ne hk hk', hrest k hk hk']

/-- One place in the fields is one in the text. -/
theorem place_of_slots {k' : Str} (hk : Key k) (hcs : cs = A ++ (setting k v ++ C)) (hA : Ends A)
    (hC : Begins C) (hv : Gapless v) (htidy : Tidy isSpace .idle cs) (hm : parse cs = some m)
    (hslots : Slots k k' (fields A) (fields C) [] (last m))
    (hvalue : ∀ l r, m = l ++ r → Tidy isSpace (.equals k) (v ++ C) →
      Conninfo.parseFrom (.equals k) (v ++ C) = some r → ValueText k v v C) :
    Place A k v C ∧ (∃ l, run .idle (C ++ [' ']) = some (l, .idle)) ∧
      ∀ k₁, k₁ ≠ k → k₁ ≠ k' → Kept isSpace k₁ true .idle cs := by
  obtain ⟨s₀', s₁', s₂', hw₀, hw₁, hs₂', hks, -, hrest⟩ := hslots
  obtain ⟨m', hm', -, hlast⟩ := parse_fields htidy hm
  subst hcs
  obtain ⟨s₀, r₁, hrun₀, -, hr₁, hparse₁, htidy₁⟩ := exists_equals hk hA htidy hm hw₀
  have hval := hvalue s₀ r₁ hr₁ htidy₁ hparse₁
  obtain ⟨r, hr, hmr, htidyC⟩ := read_on hk hrun₀ hval hC htidy hm
  obtain ⟨r', hr', hn, -⟩ := parse_fields htidyC hr
  obtain rfl := Option.some.inj (hw₁.parse.symm.trans hr')
  obtain rfl : [] = s₂' := Option.some.inj hs₂'
  rw [List.append_nil] at hks hrest
  have hplace : Place A k v C := by
    refine ⟨hA, hC, hv, ⟨s₀, hrun₀⟩, hval, fun x hx => ?_⟩
    obtain rfl := Option.some.inj (hr.symm.trans hx)
    rwa [← hn]
  refine ⟨hplace, (whole_iff htidyC hr).mpr ⟨_, hw₁⟩, fun k₁ hk₁ hk₂ => (hlast k₁).mp ?_⟩
  rw [hplace.fields_eq hk, Conninfo.parse_place hw₀ hk.word (valueText_trail hval), hr'] at hm'
  obtain rfl := Option.some.inj hm'
  rw [← hrest k₁ hk₁ hk₂, Conninfo.last_append, Conninfo.last_append, Conninfo.last_cons, if_neg hk₁,
    Option.or_none]

/-- The fields before another setting, or a setting of the port. -/
theorem clean_of_whole {L L' : List Str} {c : Char} {g v : Str} {F : List Str} (hw : Whole F r)
    (hwords : ∀ e ∈ r, Word e.1) (hL : F ++ setting portKey v :: L = (c :: g) :: L') :
    c ≠ '\'' ∧ c ≠ '\\' := by
  cases F with
  | nil =>
      obtain ⟨rfl, -⟩ := List.cons.inj (List.cons.inj hL).1
      decide
  | cons f F =>
      obtain ⟨rfl, -⟩ := List.cons.inj hL
      exact clean_of_parse hw.parse hwords rfl

/-- **The condition is necessary** for an orderly string. -/
theorem undisturbed_of_rewritable (hm : parse cs = some m) (hwords : ∀ e ∈ m, Word e.1)
    (horderly : Orderly cs m) (hrewritable : Rewritable cs m) : Undisturbed cs m := by
  obtain ⟨htidy, hclosed⟩ := horderly
  have hne : hostKey ≠ portKey := by decide
  have hvalue : ∀ {k v : Str}, Gapless (setting k v) → Gapless v := fun hf c hc =>
    hf c (List.mem_append_right _ (List.mem_cons_of_mem _ hc))
  have hnames : ∀ {l : List Setting}, (∀ k, k ≠ hostKey → k ≠ portKey → last l k = last m k) →
      ∀ e ∈ l, Word e.1 := fun h => keyword_of_last word_hostKey word_portKey hwords h
  have hends : ∀ {A h R}, cs = A ++ (setting hostKey h ++ R) → Ends A → Begins R →
      Gapless (setting hostKey h) → NoHost R →
      (m.map Prod.fst).count hostKey ≤ 1 ∨ ∃ w, ValueText hostKey h w R :=
    fun hcs hA hR hh hno => hclosed.imp_right fun hc => hc _ _ _ hcs hA hR (hvalue hh) hno
  rcases hrewritable with hnone | ⟨hostFirst, h, n, L₀, L₁, L₂, hshape, hh, hport, hslots⟩
  · exact .inl (noHost_iff.mpr hnone)
  · right
    cases hshape with
    | @hostPort _ v _ _ _ _ hfs hv hnoHost hnoPort =>
        obtain ⟨A, R, hcs, hA, hR, -, hgh, rfl, hRf⟩ := exists_field hfs
        obtain ⟨B, C, rfl, hB, hC, -, hgv, rfl, rfl⟩ := exists_field hRf
        obtain ⟨s₀, s₁, s₂, hw₀, hw₁, hs₂, h₁, h₂, hrest⟩ := hslots
        have hnoHost' : NoHost (B ++ (setting portKey v ++ C)) := by
          rw [noHost_iff, hRf]
          exact forall_mem_middle.mpr ⟨not_isHost_port v, hnoHost⟩
        have hcounts : ∀ r, parse (join (fields (B ++ (setting portKey v ++ C)))) = some r →
            hostKey ∉ r.map Prod.fst := by
          intro r hr
          rw [hRf, Conninfo.parse_place hw₁ word_portKey
            ((word_of_parseInt hv).1.valueText (Conninfo.blank_trail _)), hs₂] at hr
          obtain rfl := Option.some.inj hr
          exact not_mem_middle.mpr ⟨hne, h₁⟩
        obtain ⟨hhost, hplace, hkept⟩ := places_of_slots key_host key_port hne hcs hA hR hB hC
          (hvalue hgh) (hvalue hgv) htidy hm ⟨s₀, s₁, s₂, hw₀, hw₁, hs₂, h₁, h₂, hrest⟩
          (fun l r hlr ht hr => value_host (hvalue hgh) hR ht hlr hr hh
            (hends hcs hA hR hgh hnoHost') (fun c g L hL => clean_of_whole hw₁
              (fun e he => hnames hrest e (by simp [he])) (hRf.symm.trans hL)) hcounts)
          (fun l r _ ht _ => value_port hv hC ht)
        exact ⟨htidy, hkept, .hostPort hcs hhost hplace (by rw [hv]; simp) hnoHost'
          (noPort_iff.mpr hnoPort)⟩
    | @portHost _ v _ _ _ _ hfs hv hnoHost hnoPort =>
        obtain ⟨A, R, hcs, hA, hR, -, hgv, rfl, hRf⟩ := exists_field hfs
        obtain ⟨B, C, rfl, hB, hC, -, hgh, rfl, rfl⟩ := exists_field hRf
        obtain ⟨s₀, s₁, s₂, hw₀, hw₁, hs₂, h₁, h₂, hrest⟩ := hslots
        have hcs' : cs = (A ++ (setting portKey v ++ B)) ++ (setting hostKey h ++ C) := by
          rw [hcs]
          simp
        have hends' : Ends (A ++ (setting portKey v ++ B)) := by
          rw [← List.append_assoc]
          exact ends_append hB (ne_nil_of_begins hR (by simp [setting]) hgh) _
        obtain ⟨hplace, hhost, hkept⟩ := places_of_slots key_port key_host hne.symm hcs hA hR hB hC
          (hvalue hgv) (hvalue hgh) htidy hm ⟨s₀, s₁, s₂, hw₀, hw₁, hs₂, h₁, h₂, hrest⟩
          (fun l r _ ht _ => value_port hv hR ht)
          (fun l r hlr ht hr => value_host (hvalue hgh) hC ht hlr hr hh
            (hends hcs' hends' hC hgh (noHost_iff.mpr hnoHost)) (fun c g L hL =>
              clean_of_parse hs₂ (fun e he => hnames (fun k hk hk' => hrest k hk' hk) e (by simp [he])) hL)
            (fun r hr => by obtain rfl := Option.some.inj (hs₂.symm.trans hr); exact h₂))
        refine ⟨htidy, fun k hk hk' => hkept k hk' hk, .portHost hcs hplace hhost (by rw [hv]; simp)
          (noHost_iff.mpr hnoHost) (noPort_iff.mpr ?_)⟩
        rw [hRf]
        exact forall_mem_middle.mpr ⟨not_isPort_host h, hnoPort⟩
    | hostOnly hfs hnoHost hnoPort =>
        obtain ⟨A, C, hcs, hA, hC, -, hgh, rfl, rfl⟩ := exists_field hfs
        obtain ⟨s₀, s₁, s₂, hw₀, hw₁, hs₂, h₁, h₂, hrest⟩ := hslots
        obtain rfl : [] = s₂ := Option.some.inj hs₂
        obtain ⟨hhost, hwhole, hkept⟩ := place_of_slots key_host hcs hA hC (hvalue hgh) htidy hm
          ⟨s₀, s₁, [], hw₀, hw₁, hs₂, h₁, h₂, hrest⟩
          (fun l r hlr ht hr => value_host (hvalue hgh) hC ht hlr hr hh
            (hends hcs hA hC hgh (noHost_iff.mpr hnoHost)) (fun c g L hL =>
              clean_of_parse hw₁.parse (fun e he => hnames hrest e (by simp [he])) hL)
            (fun r hr => by
              obtain rfl := Option.some.inj (hw₁.parse.symm.trans hr)
              rwa [List.append_nil] at h₁))
        refine ⟨htidy, hkept, .hostOnly hcs hhost (noHost_iff.mpr hnoHost) (noPort_iff.mpr ?_) hport
          hwhole⟩
        rw [hfs]
        exact forall_mem_middle.mpr ⟨not_isPort_host h, hnoPort⟩

end Necessary

/-! ## 6. Both -/

section Main

variable {keyword : Str → Prop} {readHost : Str → Option Str}

/-- **A translation changes only the endpoint** of a URL always, and of a connection string if that
    is `Undisturbed`; of an orderly one, only then. -/
theorem translatePGConnString_right_iff (hhost : keyword hostKey) (hport : keyword portKey)
    (hkeyword : ∀ k, keyword k → Word k)
    (hread : ∀ th tp, HostName th → PortText tp →
      readHost (th ++ ':' :: tp) = some (th ++ ':' :: tp))
    {cs : Str} (hcs : IsConnString keyword cs) :
    ((isPgURL cs = true ∨ ∃ m, ValidDsn keyword cs m ∧ Undisturbed cs m) →
        TranslatedRight keyword readHost cs) ∧
      ((∀ m, ValidDsn keyword cs m → Orderly cs m) → TranslatedRight keyword readHost cs →
        isPgURL cs = true ∨ ∃ m, ValidDsn keyword cs m ∧ Undisturbed cs m) := by
  cases hurl : isPgURL cs with
  | true =>
      refine ⟨fun _ hosts haddresses => ?_, fun _ _ => .inl rfl⟩
      rw [if_pos hurl]
      exact url_right hurl haddresses hread
  | false =>
      obtain ⟨m, hm⟩ := hcs.resolve_left fun h => by
        rw [hurl] at h
        cases h
      have hiff : (∀ hosts, Addresses hosts → DsnRight keyword readHost hosts cs) ↔
          Rewritable cs m := dsn_right_iff hhost hport hurl hm
      have hright : TranslatedRight keyword readHost cs ↔
          ∀ hosts, Addresses hosts → DsnRight keyword readHost hosts cs := by
        simp only [TranslatedRight, hurl, Bool.false_eq_true, if_false]
      rw [hright, hiff]
      constructor
      · intro h
        obtain ⟨m', hm', hundisturbed⟩ := h.resolve_left Bool.false_ne_true
        obtain rfl := Option.some.inj (hm'.1.symm.trans hm.1)
        exact rewritable_of_undisturbed hm.1 hundisturbed
      · intro horderly h
        exact .inr ⟨m, hm, undisturbed_of_rewritable hm.1 (fun e he => hkeyword e.1 (hm.2 e he))
          (horderly m hm) h⟩

/-- A password with a blank between host and port, and a URL with a password. -/
theorem translatePGConnString_right_examples :
    TranslatedRight (· ∈ [hostKey, portKey, "password".toList, "user".toList]) some
        "user=u host=db password='a b' port=5433".toList ∧
      TranslatedRight (· ∈ [hostKey, portKey, "password".toList, "user".toList]) some
        "postgres://u:p%20p@db:5433/d?x=1".toList := by
  have hread : ∀ th tp, HostName th → PortText tp →
      some (th ++ ':' :: tp) = some (th ++ ':' :: tp) := fun _ _ _ _ => rfl
  have hkeyword : ∀ k, k ∈ [hostKey, portKey, "password".toList, "user".toList] → Word k := by
    intro k hk
    simp only [List.mem_cons, List.not_mem_nil, or_false] at hk
    rcases hk with rfl | rfl | rfl | rfl
    · exact word_hostKey
    · exact word_portKey
    · exact ⟨by decide, Str.forall_mem_of_all (by decide)⟩
    · exact ⟨by decide, Str.forall_mem_of_all (by decide)⟩
  have hvalid : ValidDsn (· ∈ [hostKey, portKey, "password".toList, "user".toList])
      "user=u host=db password='a b' port=5433".toList
      [("user".toList, "u".toList), (hostKey, "db".toList), ("password".toList, "a b".toList),
        (portKey, "5433".toList)] := ⟨by decide, by decide⟩
  have htidy : Tidy isSpace .idle "user=u host=db password='a b' port=5433".toList := by decide
  -- joining the fields changes nothing here
  have hkept : ∀ k, Kept isSpace k true .idle "user=u host=db password='a b' port=5433".toList := by
    obtain ⟨m', hm', -, hlast⟩ := parse_fields htidy hvalid.1
    have hsame : join (fields "user=u host=db password='a b' port=5433".toList) =
        "user=u host=db password='a b' port=5433".toList := by decide
    rw [hsame] at hm'
    obtain rfl := Option.some.inj (hm'.symm.trans hvalid.1)
    exact fun k => (hlast k).mp rfl
  have hends : ∀ {A : Str} {d : Char}, isSpace d = true → Ends (A ++ [d]) := fun hd p c hp => by
    obtain ⟨-, hc⟩ := List.append_inj' hp rfl
    rwa [← (List.cons.inj hc).1]
  have hbegins : ∀ {C : Str} {d : Char}, isSpace d = true → Begins (d :: C) := fun hd c r hc => by
    rwa [← (List.cons.inj hc).1]
  have hhost : Place "user=u ".toList hostKey "db".toList " password='a b' port=5433".toList := by
    have hrest : parse " password='a b' port=5433".toList =
        some [("password".toList, "a b".toList), (portKey, "5433".toList)] := by decide
    have hword : Word "db".toList := ⟨by decide, Str.forall_mem_of_all (by decide)⟩
    refine ⟨hends (A := "user=u".toList) (d := ' ') (by decide), hbegins (by decide),
      gapless_of_all (by decide), ⟨[("user".toList, "u".toList)], by decide⟩,
      hword.valueText (.inr ⟨_, _, rfl, rfl⟩), fun m hm => ?_⟩
    obtain rfl := Option.some.inj (hm.symm.trans hrest)
    decide
  have hport : Place " password='a b' ".toList portKey "5433".toList [] := by
    have hword : Word "5433".toList := ⟨by decide, Str.forall_mem_of_all (by decide)⟩
    refine ⟨hends (A := " password='a b'".toList) (d := ' ') (by decide), fun c r hc => ?_,
      gapless_of_all (by decide), ⟨[("password".toList, "a b".toList)], by decide⟩,
      hword.valueText (.inl rfl), fun m hm => ?_⟩
    · cases hc
    · obtain rfl := Option.some.inj (hm.symm.trans (by rfl : parse [] = some []))
      simp
  have hspelled : Spelled "user=u host=db password='a b' port=5433".toList
      [("user".toList, "u".toList), (hostKey, "db".toList), ("password".toList, "a b".toList),
        (portKey, "5433".toList)] :=
    .hostPort rfl hhost hport (by decide) (noHost_iff.mpr (by decide)) (noPort_iff.mpr (by decide))
  refine ⟨(translatePGConnString_right_iff (by decide) (by decide) hkeyword hread
    (.inr ⟨_, hvalid⟩)).1 (.inr ⟨_, hvalid, .inr ⟨htidy, fun k _ _ => hkept k, hspelled⟩⟩), ?_⟩
  exact (translatePGConnString_right_iff (by decide) (by decide) hkeyword hread
    (.inl (by decide))).1 (.inl (by decide))

/-- A password with two blanks is one with a single blank afterwards. -/
theorem squeezes_password :
    ValidDsn (· ∈ [hostKey, portKey, "password".toList]) "host=db password='a  b'".toList
        [(hostKey, "db".toList), ("password".toList, "a  b".toList)] ∧
      ¬ TranslatedRight (· ∈ [hostKey, portKey, "password".toList]) some
        "host=db password='a  b'".toList := by
  refine ⟨⟨by decide, by decide⟩, fun h => ?_⟩
  have hs : translatePGConnString some
      (onlyLookup "db".toList 5432 ("localhost".toList ++ ':' :: "15432".toList))
      "host=db password='a  b'".toList =
        some "host=localhost password='a b' port=15432".toList := by decide
  have haddresses : Addresses
      (onlyLookup "db".toList 5432 ("localhost".toList ++ ':' :: "15432".toList)) :=
    addresses_onlyLookup (by decide) (by decide)
  obtain ⟨m, m', -, -, -, -, hm, hm', -, -, -, -, -, -, -, hrest⟩ := h _ haddresses _ hs
  have hread : Conninfo.parse "host=db password='a  b'".toList =
      some [(hostKey, "db".toList), ("password".toList, "a  b".toList)] := by decide
  have hread' : Conninfo.parse "host=localhost password='a b' port=15432".toList =
      some [(hostKey, "localhost".toList), ("password".toList, "a b".toList),
        (portKey, "15432".toList)] := by decide
  obtain rfl := Option.some.inj (hm.1.symm.trans hread)
  obtain rfl := Option.some.inj (hm'.1.symm.trans hread')
  exact absurd (hrest "password".toList (by decide) (by decide)) (by decide)

end Main

end DevDashboard.StateStore
