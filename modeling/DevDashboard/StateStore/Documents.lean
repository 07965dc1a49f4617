/-
  File:      DevDashboard/StateStore/Documents.lean
  Subject:   THE DOCUMENTS OF A COMPONENT FILE (`splitYAMLDocs` of pkg/statestore, pkg/resources
             and pkg/secrets, against the documents of a YAML stream).

  The regular expression takes a text apart at the lines that are `---` and blanks, with the blank
  lines behind them; the parser that reads each piece takes the first document of it. A `---`
  with a comment or content behind it, and a `...`, stay inside a piece.

  * `splitDocsFrom_line`, `splitDocsFrom_separator` -- what the expression does with one line;
  * `cut_splitDocs` -- **the pieces are the stream cut at its separators**;
  * `split_yaml_docs_iff` -- the pieces, each read by its first document, give every document of
    the stream that is not empty exactly if each of these is the first one since the last
    separator;
  * `mem_filterMap_of_split` -- what a reader finds in a document, it finds in the file.
-/
import DevDashboard.Lib.YamlStream
import DevDashboard.Resources.Service

namespace DevDashboard.StateStore

open Lib Lib.YamlStream

/-! ## 1. Lines as the regular expression sees them -/

/-- LF or CRLF line ends and no form feed: a CR stands only at the end of a line. -/
def PlainBreaks (data : Str) : Prop := ∀ l ∈ data.splitOn '\n', '\x0c' ∉ l ∧ '\r' ∉ chomp l

instance (data : Str) : Decidable (PlainBreaks data) :=
  inferInstanceAs (Decidable (∀ l ∈ data.splitOn '\n', '\x0c' ∉ l ∧ '\r' ∉ chomp l))

/-- A line of blanks, as `\s` has it. -/
def RegexBlank (l : Str) : Prop := ∀ c ∈ l, isBlank c = true

/-- A separator line, as the expression has it. -/
def RegexSeparator (l : Str) : Prop := ∃ w, l = dashes ++ w ∧ RegexBlank w

variable {l s : Str}

/-! ## 2. One line of the expression -/

/-- What is collected so far stands before the first piece. -/
theorem splitDocsFrom_acc (bol : Bool) (skip : Nat) (acc s : Str) :
    splitDocsFrom bol skip acc s = (splitDocsFrom bol skip [] s).modifyHead (acc.reverse ++ ·) := by
  induction s generalizing bol skip acc with
  | nil => simp [splitDocsFrom]
  | cons c s ih =>
      cases skip with
      | succ skip =>
          rw [splitDocsFrom, splitDocsFrom, ih]
      | zero =>
          rw [splitDocsFrom, splitDocsFrom]
          split
          · simp
          · rw [ih _ _ (c :: acc), ih _ _ [c], List.modifyHead_modifyHead]
            congr 1
            funext p
            simp

/-- The characters of a match are dropped. -/
theorem splitDocsFrom_skip (bol : Bool) (x s : Str) :
    ∃ bol', splitDocsFrom bol x.length [] (x ++ s) = splitDocsFrom bol' 0 [] s := by
  induction x generalizing bol with
  | nil => exact ⟨bol, rfl⟩
  | cons c x ih => exact ih _

/-- Inside a line nothing is matched. -/
theorem splitDocsFrom_inside (hl : '\n' ∉ l) (acc s : Str) :
    splitDocsFrom false 0 acc (l ++ '\n' :: s) = splitDocsFrom true 0 ('\n' :: l.reverse ++ acc) s := by
  induction l generalizing acc with
  | nil => simp [splitDocsFrom]
  | cons c l ih =>
      rw [List.mem_cons, not_or] at hl
      have hc : (c == '\n') = false := by simpa using Ne.symm hl.1
      rw [List.cons_append, splitDocsFrom, if_neg Bool.false_ne_true, hc, ih hl.2]
      simp

theorem splitDocsFrom_last (hl : '\n' ∉ l) (acc : Str) :
    splitDocsFrom false 0 acc l = [acc.reverse ++ l] := by
  induction l generalizing acc with
  | nil => simp [splitDocsFrom]
  | cons c l ih =>
      rw [List.mem_cons, not_or] at hl
      have hc : (c == '\n') = false := by simpa using Ne.symm hl.1
      rw [splitDocsFrom, if_neg Bool.false_ne_true, hc, ih hl.2]
      simp

/-- **A line that is no separator** stays in its piece. -/
theorem splitDocsFrom_line (hl : '\n' ∉ l) (hs : separatorLength (l ++ '\n' :: s) = none) :
    splitDocsFrom true 0 [] (l ++ '\n' :: s) =
      (splitDocsFrom true 0 [] s).modifyHead (l ++ '\n' :: ·) := by
  have hstart : splitDocsFrom true 0 [] (l ++ '\n' :: s) = splitDocsFrom true 0 ('\n' :: l.reverse) s := by
    cases l with
    | nil =>
        rw [List.nil_append] at hs ⊢
        rw [splitDocsFrom, if_pos rfl, hs]
        rfl
    | cons c l =>
        rw [List.mem_cons, not_or] at hl
        have hc : (c == '\n') = false := by simpa using Ne.symm hl.1
        rw [List.cons_append] at hs ⊢
        rw [splitDocsFrom, if_pos rfl, hs]
        dsimp only
        rw [hc, splitDocsFrom_inside hl.2]
        simp
  rw [hstart, splitDocsFrom_acc]
  congr 1
  funext p
  simp

theorem splitDocsFrom_last_line (hl : '\n' ∉ l) (hs : separatorLength l = none) :
    splitDocsFrom true 0 [] l = [l] := by
  cases l with
  | nil => rfl
  | cons c l =>
      rw [List.mem_cons, not_or] at hl
      have hc : (c == '\n') = false := by simpa using Ne.symm hl.1
      rw [splitDocsFrom, if_pos rfl, hs]
      dsimp only
      rw [hc, splitDocsFrom_last hl.2]
      rfl

/-- **A separator** and the blanks its match takes begin a new piece. -/
theorem splitDocsFrom_separator {w : Str} (hs : separatorLength (dashes ++ w ++ s) = some (3 + w.length)) :
    ∃ bol, splitDocsFrom true 0 [] (dashes ++ w ++ s) = [] :: splitDocsFrom bol 0 [] s := by
  obtain ⟨bol, hb⟩ := splitDocsFrom_skip false ('-' :: '-' :: w) s
  refine ⟨bol, ?_⟩
  show splitDocsFrom true 0 [] ('-' :: ('-' :: '-' :: w ++ s)) = _
  have hs' : separatorLength ('-' :: ('-' :: '-' :: w ++ s)) = some (3 + w.length) := hs
  rw [splitDocsFrom, if_pos rfl, hs']
  dsimp only
  have hlen : 3 + w.length - 1 = ('-' :: '-' :: w).length := by
    simp only [List.length_cons]
    omega
  rw [hlen, ← hb]
  rfl

/-! ## 3. What a match takes -/

theorem separatorLength_blank {w : Str} (hw : RegexBlank w) :
    separatorLength (dashes ++ w) = some (3 + w.length) := by
  have ht : w.takeWhile isBlank = w := by
    rw [List.takeWhile_eq_self_iff]
    exact hw
  have hp : Str.hasPrefix (dashes ++ w) dashes = true := by
    rw [Str.hasPrefix_iff]
    exact List.prefix_append _ _
  have hd : (dashes ++ w).drop 3 = w := rfl
  simp only [separatorLength, hp, if_true, hd, ht]

/-- Blanks up to a line that is not blank: the match ends before the last line end. -/
theorem separatorLength_lines {u i : Str} {c : Char} (hu : RegexBlank u) (hi : RegexBlank i)
    (hn : '\n' ∉ i) (hc : isBlank c = false) (s : Str) :
    separatorLength (dashes ++ u ++ '\n' :: (i ++ c :: s)) = some (3 + u.length) := by
  have ht : (u ++ '\n' :: (i ++ c :: s)).takeWhile isBlank = u ++ '\n' :: i := by
    rw [List.takeWhile_append_of_pos hu, List.takeWhile_cons_of_pos (by decide),
      List.takeWhile_append_of_pos hi, List.takeWhile_cons_of_neg (by simp [hc]), List.append_nil]
  have hp : Str.hasPrefix (dashes ++ u ++ '\n' :: (i ++ c :: s)) dashes = true := by
    rw [Str.hasPrefix_iff, List.append_assoc]
    exact List.prefix_append _ _
  have hd : (dashes ++ u ++ '\n' :: (i ++ c :: s)).drop 3 = u ++ '\n' :: (i ++ c :: s) := rfl
  have hlast : ((u ++ '\n' :: i).reverse.takeWhile (· ≠ '\n')).length = i.length := by
    rw [List.reverse_append, List.reverse_cons, List.append_assoc,
      List.takeWhile_append_of_pos (by
        intro d hd
        have hne : d ≠ '\n' := fun he => hn (he ▸ List.mem_reverse.mp hd)
        simpa using hne)]
    simp
  have hm : '\n' ∈ u ++ '\n' :: i := by simp
  simp only [separatorLength, hp, if_true, hd, ht, hlast, hm]
  rw [if_neg (by simp)]
  simp only [List.length_append, List.length_cons, Option.some.injEq]
  omega

/-- Nothing else is matched at the beginning of a line. -/
theorem separatorLength_of_not (hl : '\n' ∉ l) (hn : ¬ RegexSeparator l) (s : Str) :
    separatorLength (l ++ '\n' :: s) = none ∧ separatorLength l = none := by
  by_cases hp : dashes <+: l
  · -- the blanks behind the dashes end before the line does
    obtain ⟨w, rfl⟩ := hp
    have hw : ∃ i c v, w = i ++ c :: v ∧ RegexBlank i ∧ isBlank c = false := by
      have happ := List.takeWhile_append_dropWhile (p := isBlank) (l := w)
      cases hd : w.dropWhile isBlank with
      | nil =>
          rw [List.dropWhile_eq_nil_iff] at hd
          exact absurd ⟨w, rfl, hd⟩ hn
      | cons c v =>
          refine ⟨w.takeWhile isBlank, c, v, by rw [← hd, happ],
            fun d hd => List.all_eq_true.mp List.all_takeWhile d hd, ?_⟩
          have hc := List.head?_dropWhile_not isBlank w
          rw [hd] at hc
          simpa using hc
    obtain ⟨i, c, v, rfl, hi, hc⟩ := hw
    have hni : '\n' ∉ i := fun hm => hl (List.mem_append_right _ (List.mem_append_left _ hm))
    have key : ∀ z : Str, separatorLength (dashes ++ (i ++ c :: z)) = none := by
      intro z
      have ht : (i ++ c :: z).takeWhile isBlank = i := by
        rw [List.takeWhile_append_of_pos hi, List.takeWhile_cons_of_neg (by simp [hc]),
          List.append_nil]
      have hp : Str.hasPrefix (dashes ++ (i ++ c :: z)) dashes = true := by
        rw [Str.hasPrefix_iff]
        exact List.prefix_append _ _
      have hd : (dashes ++ (i ++ c :: z)).drop 3 = i ++ c :: z := rfl
      simp only [separatorLength, hp, if_true, hd, ht]
      rw [if_neg (by simp), if_neg hni]
    refine ⟨?_, key v⟩
    have h := key (v ++ '\n' :: s)
    rwa [List.append_assoc, List.append_assoc, List.cons_append]
  · have hp' : ¬ dashes <+: l ++ '\n' :: s := by
      intro h
      rcases List.prefix_or_prefix_of_prefix h (List.prefix_append l ('\n' :: s)) with h' | ⟨u, hu⟩
      · exact hp h'
      · -- the line is shorter than the dashes: its end would be one of them
        obtain ⟨v, hv⟩ := h
        rw [← hu, List.append_assoc, List.append_cancel_left_eq] at hv
        cases u with
        | nil => exact hp ⟨[], by rw [List.append_nil, ← hu, List.append_nil]⟩
        | cons c u =>
            have hc : '\n' ∈ dashes := by
              rw [← hu, ← (List.cons.inj hv).1]
              simp
            exact absurd hc (by decide)
    constructor
    · rw [separatorLength, if_neg]
      rw [Str.hasPrefix_iff]
      exact hp'
    · rw [separatorLength, if_neg]
      rw [Str.hasPrefix_iff]
      exact hp

/-! ## 4. The lines of the stream -/

theorem PlainBreaks.cons (hl : '\n' ∉ l) (h : PlainBreaks (l ++ '\n' :: s)) :
    ('\x0c' ∉ l ∧ '\r' ∉ chomp l) ∧ PlainBreaks s := by
  unfold PlainBreaks at h
  rw [List.splitOn_append_cons_self_of_not_mem hl] at h
  exact ⟨h l List.mem_cons_self, fun x hx => h x (List.mem_cons_of_mem _ hx)⟩

theorem PlainBreaks.of_append {a b : Str} (ha : Lines.rest '\n' a = []) (h : PlainBreaks (a ++ b)) :
    PlainBreaks b := by
  unfold PlainBreaks at h
  rw [Lines.splitOn_append, ha, List.nil_append] at h
  exact fun x hx => h x (List.mem_append_right _ hx)

theorem PlainBreaks.left {a b : Str} (h : PlainBreaks (a ++ b)) :
    ∀ x ∈ Lines.lines '\n' a, '\x0c' ∉ x ∧ '\r' ∉ chomp x := by
  unfold PlainBreaks at h
  rw [Lines.splitOn_append] at h
  exact fun x hx => h x (List.mem_append_left _ hx)

/-- The blanks of the expression are, without the line end, those of the stream. -/
theorem blankLine_chomp (hn : '\n' ∉ l) (hf : '\x0c' ∉ l) (hr : '\r' ∉ chomp l)
    (h : RegexBlank l) : blankLine (chomp l) = true := by
  refine List.all_eq_true.mpr fun c hc => ?_
  have hcl : c ∈ l := by
    rcases eq_chomp l with he | he
    · rw [he]
      exact hc
    · rw [he]
      exact List.mem_append_left _ hc
  have hb := of_decide_eq_true (h c hcl)
  simp only [List.mem_cons, List.not_mem_nil, or_false] at hb
  rcases hb with rfl | rfl | rfl | rfl | rfl
  · rfl
  · exact absurd hcl hn
  · exact absurd hcl hf
  · exact absurd hc hr
  · rfl

theorem regexBlank_of_blankLine {w : Str} (h : blankLine w = true) : RegexBlank w := by
  intro c hc
  have hb := List.all_eq_true.mp h c hc
  simp only [YamlStream.isBlank, Bool.or_eq_true, beq_iff_eq] at hb
  rcases hb with rfl | rfl <;> rfl

/-- **The separators of the expression** are those of the stream. -/
theorem regexSeparator_iff (hn : '\n' ∉ l) (hf : '\x0c' ∉ l) (hr : '\r' ∉ chomp l) :
    RegexSeparator l ↔ separator (chomp l) = true := by
  constructor
  · rintro ⟨w, rfl, hw⟩
    have hc : chomp (dashes ++ w) = dashes ++ chomp w := chomp_append (by decide) w
    rw [hc, List.mem_append, not_or] at hr
    rw [List.mem_append, not_or] at hn hf
    have hb := blankLine_chomp hn.2 hf.2 hr.2 hw
    have hhead : (chomp w).head?.all YamlStream.isBlank = true := by
      cases h : chomp w with
      | nil => rfl
      | cons c t =>
          rw [h] at hb
          exact List.all_eq_true.mp hb c List.mem_cons_self
    have hafter : after? ['-', '-', '-'] (dashes ++ chomp w) = some (chomp w) := by
      rw [after?, if_pos]
      · rfl
      · refine ⟨?_, hhead⟩
        rw [Str.hasPrefix_iff]
        exact List.prefix_append _ _
    rw [hc, separator, mark, hafter]
    exact hb
  · intro h
    obtain ⟨hm, hb⟩ := mark_separator h
    have hpre : ['-', '-', '-'] <+: chomp l := by
      unfold mark after? at hm
      split at hm
      · rename_i hh
        split at hh
        · rename_i hc
          rw [Str.hasPrefix_iff] at hc
          exact hc.1
        · cases hh
      · split at hm <;> cases hm
    obtain ⟨w, hw⟩ := hpre
    have hdrop : (chomp l).drop 3 = w := by
      rw [← hw]
      rfl
    rw [hdrop] at hb
    rcases eq_chomp l with he | he
    · exact ⟨w, by rw [he, ← hw]; rfl, regexBlank_of_blankLine hb⟩
    · refine ⟨w ++ ['\r'], by rw [he, ← hw, List.append_assoc]; rfl, fun c hc => ?_⟩
      rcases List.mem_append.mp hc with hc | hc
      · exact regexBlank_of_blankLine hb c hc
      · rw [List.mem_singleton.mp hc]
        rfl

/-! ## 5. The pieces -/

/-- A cut whose first piece has exactly the lines before the first separator. -/
inductive CutAt (p : Str) : List Str → List Str → Prop where
  | whole (hp : ∀ l ∈ linesOf p, separator l = false) : CutAt p [] (linesOf p)
  | more {ps ms : List Str} {l : Str} (hp : ∀ l ∈ linesOf p, separator l = false)
      (hl : separator l = true) (h : Cut ps ms) : CutAt p ps (linesOf p ++ l :: ms)

theorem CutAt.cut {p : Str} {ps ls : List Str} (h : CutAt p ps ls) : Cut (p :: ps) ls := by
  cases h with
  | whole hp => exact .last rfl hp
  | more hp hl h => exact .cons rfl hp hl h

/-- A line that is no separator joins the first piece. -/
theorem CutAt.cons_line {p : Str} {ps ls : List Str} (h : CutAt p ps ls) (hn : '\n' ∉ l)
    (hl : separator (chomp l) = false) : CutAt (l ++ '\n' :: p) ps (chomp l :: ls) := by
  have hlines := linesOf_cons hn p
  cases h with
  | whole hp =>
      rw [← hlines]
      exact .whole (hlines ▸ List.forall_mem_cons.mpr ⟨hl, hp⟩)
  | more hp hs h =>
      rw [← List.cons_append, ← hlines]
      exact .more (hlines ▸ List.forall_mem_cons.mpr ⟨hl, hp⟩) hs h

theorem dropWhile_append_blank {bs : List Str} (hbs : ∀ b ∈ bs, blankLine b = true) (ls : List Str) :
    (bs ++ ls).dropWhile blankLine = ls.dropWhile blankLine := by
  rw [List.dropWhile_append_of_pos hbs]

/-- Blank lines before the first piece, of the stream or of the piece, change nothing. -/
theorem CutAt.blank {p : Str} {ps ls bs : List Str} (h : CutAt p ps ls)
    (hbs : ∀ b ∈ bs, blankLine b = true) : Cut (('\n' :: p) :: ps) (bs ++ ls) := by
  have hlines : linesOf ('\n' :: p) = [] :: linesOf p := linesOf_cons List.not_mem_nil p
  have hdrop : (linesOf ('\n' :: p)).dropWhile blankLine = (bs ++ linesOf p).dropWhile blankLine := by
    rw [hlines, dropWhile_append_blank hbs]
    rfl
  have hno : (∀ l ∈ linesOf p, separator l = false) → ∀ l ∈ bs ++ linesOf p, separator l = false := by
    intro hp l hl
    rcases List.mem_append.mp hl with hl | hl
    · exact separator_of_blankLine (hbs l hl)
    · exact hp l hl
  cases h with
  | whole hp => exact .last hdrop (hno hp)
  | more hp hs h =>
      rw [← List.append_assoc]
      exact .cons hdrop (hno hp) hs h

theorem blankLine_of_mem_linesOf {t : Str} (ht : RegexBlank t)
    (hplain : ∀ x ∈ t.splitOn '\n', '\n' ∉ x ∧ '\x0c' ∉ x ∧ '\r' ∉ chomp x) :
    ∀ l ∈ linesOf t, blankLine l = true := by
  intro l hl
  obtain ⟨x, hx, rfl⟩ := exists_of_mem_linesOf hl
  obtain ⟨hn, hf, hr⟩ := hplain x hx
  exact blankLine_chomp hn hf hr fun c hc => ht c (Lines.subset_of_mem_splitOn hx hc)

theorem not_mem_of_mem_splitOn {t x : Str} (h : x ∈ t.splitOn '\n') : '\n' ∉ x := by
  rw [Lines.splitOn_eq, List.mem_append, List.mem_singleton] at h
  rcases h with h | rfl
  · exact Lines.not_mem_of_mem_lines h
  · exact Lines.not_mem_rest '\n' t

/-- A text taken apart behind its last blank line before something else. -/
theorem exists_blank_lines (s : Str) (hs : ¬ RegexBlank s) : ∃ b i c v, s = b ++ (i ++ c :: v) ∧
    RegexBlank b ∧ Lines.rest '\n' b = [] ∧ RegexBlank i ∧ '\n' ∉ i ∧ isBlank c = false := by
  have happ := List.takeWhile_append_dropWhile (p := isBlank) (l := s)
  have hws : RegexBlank (s.takeWhile isBlank) := fun c hc =>
    List.all_eq_true.mp List.all_takeWhile c hc
  obtain ⟨b, hb, hrest⟩ : ∃ b, s.takeWhile isBlank = b ++ Lines.rest '\n' (s.takeWhile isBlank) ∧
      Lines.rest '\n' b = [] := Lines.exists_append_rest _
  cases hd : s.dropWhile isBlank with
  | nil =>
      rw [List.dropWhile_eq_nil_iff] at hd
      exact absurd hd hs
  | cons c v =>
      have hc := List.head?_dropWhile_not isBlank s
      rw [hd] at hc
      have hbi : RegexBlank (b ++ Lines.rest '\n' (s.takeWhile isBlank)) := hb ▸ hws
      refine ⟨b, Lines.rest '\n' (s.takeWhile isBlank), c, v, ?_,
        fun x hx => hbi x (List.mem_append_left _ hx), hrest,
        fun x hx => hbi x (List.mem_append_right _ hx), Lines.not_mem_rest _ _, by simpa using hc⟩
      rw [← List.append_assoc, ← hb, ← hd, happ]

/-- The line end that a match leaves begins the next piece. -/
theorem splitDocsFrom_newline (bol : Bool) (s : Str) :
    splitDocsFrom bol 0 [] ('\n' :: s) = (splitDocsFrom true 0 [] s).modifyHead ('\n' :: ·) := by
  have hnone : (if bol then separatorLength ('\n' :: s) else none) = none := by
    have hs : separatorLength ('\n' :: s) = none := by
      rw [separatorLength, if_neg]
      rw [Str.hasPrefix_iff]
      rintro ⟨t, ht⟩
      exact absurd (List.cons.inj ht).1 (by decide)
    cases bol
    · rfl
    · exact hs
  rw [splitDocsFrom, hnone]
  exact splitDocsFrom_acc _ _ _ _

/-- What the expression makes of a text: a first piece and the pieces behind it. -/
def CutsAt (s : Str) : Prop := ∃ p ps, splitDocsFrom true 0 [] s = p :: ps ∧ CutAt p ps (linesOf s)

/-- A separator, and nothing but blanks behind it. -/
theorem cutsAt_separator_blank {w : Str} (hn : '\n' ∉ dashes ++ w) (hw : RegexBlank w)
    (hsep : separator (chomp (dashes ++ w)) = true) (hs : RegexBlank s) (hplain : PlainBreaks s) :
    CutsAt (dashes ++ w ++ '\n' :: s) := by
  have hall : RegexBlank (w ++ '\n' :: s) := by
    intro c hc
    rcases List.mem_append.mp hc with hc | hc
    · exact hw c hc
    · rcases List.mem_cons.mp hc with rfl | hc
      · rfl
      · exact hs c hc
  obtain ⟨bol, hb⟩ := splitDocsFrom_separator (s := [])
    (by rw [List.append_nil]; exact separatorLength_blank hall)
  rw [List.append_nil] at hb
  have hlast : ∀ l ∈ linesOf s, blankLine l = true := blankLine_of_mem_linesOf hs fun x hx =>
    ⟨not_mem_of_mem_splitOn hx, (hplain x hx).1, (hplain x hx).2⟩
  have hd : (linesOf s).dropWhile blankLine = [] := List.dropWhile_eq_nil_iff.mpr hlast
  refine ⟨[], [[]], by rw [List.append_assoc, hb]; rfl, ?_⟩
  rw [linesOf_cons hn]
  refine CutAt.more (p := []) (by simp [linesOf]) hsep (.last ?_ fun l hl =>
    separator_of_blankLine (hlast l hl))
  rw [hd]
  rfl

/-- A separator, blank lines, and then a line that is not blank. -/
theorem cutsAt_separator_lines {w b i v : Str} {c : Char} (hn : '\n' ∉ dashes ++ w)
    (hw : RegexBlank w) (hsep : separator (chomp (dashes ++ w)) = true) (hb : RegexBlank b)
    (hrest : Lines.rest '\n' b = []) (hi : RegexBlank i) (hni : '\n' ∉ i) (hc : isBlank c = false)
    (hplain : PlainBreaks (b ++ (i ++ c :: v))) (ih : CutsAt (i ++ c :: v)) :
    CutsAt (dashes ++ w ++ '\n' :: (b ++ (i ++ c :: v))) := by
  -- the match ends before the last line end of the blanks
  obtain ⟨u, hu⟩ : ∃ u, w ++ '\n' :: b = u ++ ['\n'] := by
    rcases Lines.rest_eq_nil_iff.mp hrest with rfl | hlast
    · exact ⟨w, rfl⟩
    · refine ⟨w ++ '\n' :: b.dropLast, ?_⟩
      rw [List.append_assoc, List.cons_append, List.dropLast_append_getLast?]
      exact hlast
  have hub : RegexBlank u := by
    intro x hx
    have hx' : x ∈ w ++ '\n' :: b := hu ▸ List.mem_append_left _ hx
    rcases List.mem_append.mp hx' with hx' | hx'
    · exact hw x hx'
    · rcases List.mem_cons.mp hx' with rfl | hx'
      · rfl
      · exact hb x hx'
  have htext : dashes ++ w ++ '\n' :: (b ++ (i ++ c :: v)) =
      dashes ++ u ++ '\n' :: (i ++ c :: v) := by
    have := congrArg (· ++ (i ++ c :: v)) hu
    simp only [List.append_assoc, List.cons_append, List.nil_append] at this ⊢
    rw [this]
  obtain ⟨bol, hbol⟩ := splitDocsFrom_separator (separatorLength_lines hub hi hni hc v)
  have hblanks : ∀ l ∈ linesOf b, blankLine l = true := by
    refine blankLine_of_mem_linesOf hb fun x hx => ?_
    rw [Lines.splitOn_eq, hrest, List.mem_append, List.mem_singleton] at hx
    rcases hx with hx | rfl
    · exact ⟨Lines.not_mem_of_mem_lines hx, hplain.left x hx⟩
    · exact ⟨List.not_mem_nil, List.not_mem_nil, List.not_mem_nil⟩
  obtain ⟨p, ps, hps, hcut⟩ := ih
  refine ⟨[], ('\n' :: p) :: ps, by rw [htext, hbol, splitDocsFrom_newline, hps]; rfl, ?_⟩
  rw [linesOf_cons hn, linesOf_append hrest]
  exact CutAt.more (p := []) (by simp [linesOf]) hsep (hcut.blank hblanks)

/-- The last line of a text, without a line end. -/
theorem cutsAt_last (hn : '\n' ∉ s) (hne : s ≠ []) (h : PlainBreaks s) : CutsAt s := by
  have hone : s.splitOn '\n' = [s] := List.splitOn_eq_singleton hn
  obtain ⟨hf, hr⟩ := h s (by rw [hone]; exact List.mem_singleton_self s)
  have hlines := linesOf_of_not_mem hn hne
  by_cases hsep : RegexSeparator s
  · have hsep' := (regexSeparator_iff hn hf hr).mp hsep
    obtain ⟨w, rfl, hw⟩ := hsep
    obtain ⟨bol, hb⟩ := splitDocsFrom_separator (s := [])
      (by rw [List.append_nil]; exact separatorLength_blank hw)
    rw [List.append_nil] at hb
    refine ⟨[], [[]], hb, ?_⟩
    rw [hlines]
    exact CutAt.more (p := []) (by simp [linesOf]) hsep' (.last rfl (by simp))
  · have hsep' : separator (chomp s) = false := by
      rw [← Bool.not_eq_true, ← regexSeparator_iff hn hf hr]
      exact hsep
    refine ⟨s, [], splitDocsFrom_last_line hn (separatorLength_of_not hn hsep []).2, .whole ?_⟩
    rw [hlines]
    simpa using hsep'

/-- **The pieces are the stream cut at its separators.** -/
theorem cut_splitDocs {s : Str} (h : PlainBreaks s) : CutsAt s := by
  induction hlen : s.length using Nat.strongRecOn generalizing s with
  | ind n ih =>
      by_cases hline : '\n' ∈ s
      · obtain ⟨l, s, rfl, hn⟩ := List.eq_append_cons_of_mem hline
        obtain ⟨⟨hf, hr⟩, hplain⟩ := h.cons hn
        rw [List.length_append, List.length_cons] at hlen
        by_cases hsep : RegexSeparator l
        · have hsep' := (regexSeparator_iff hn hf hr).mp hsep
          obtain ⟨w, rfl, hw⟩ := hsep
          by_cases hblank : RegexBlank s
          · exact cutsAt_separator_blank hn hw hsep' hblank hplain
          · obtain ⟨b, i, c, v, rfl, hb, hrest, hi, hni, hc⟩ := exists_blank_lines s hblank
            have hb' : (b ++ (i ++ c :: v)).length = b.length + (i ++ c :: v).length :=
              List.length_append
            exact cutsAt_separator_lines hn hw hsep' hb hrest hi hni hc hplain
              (ih _ (by omega) (hplain.of_append hrest) rfl)
        · have hsep' : separator (chomp l) = false := by
            rw [← Bool.not_eq_true, ← regexSeparator_iff hn hf hr]
            exact hsep
          obtain ⟨p, ps, hps, hcut⟩ := ih _ (by omega) hplain rfl
          refine ⟨l ++ '\n' :: p, ps, ?_, ?_⟩
          · rw [splitDocsFrom_line hn (separatorLength_of_not hn hsep s).1, hps]
            rfl
          · rw [linesOf_cons hn]
            exact hcut.cons_line hn hsep'
      · by_cases hne : s = []
        · rw [hne]
          exact ⟨[], [], rfl, .whole (by simp [linesOf])⟩
        · exact cutsAt_last hline hne h

/-! ## 6. What is read of a file -/

/-- What a parser that reads the first document of a text reads of the pieces. -/
def readDocs (data : Str) : List (List Str) :=
  (((splitYAMLDocs data).filterMap (firstDoc isSpace)).filter (Doc.nonEmpty isSpace)).map Doc.body

/-- **Every document is read**: one piece for each document of the stream that is not empty, with
    the document's content. -/
def ReadsEvery (data : Str) (docs : List Doc) : Prop :=
  readDocs data = (docs.filter (Doc.nonEmpty isSpace)).map Doc.body

instance (data : Str) (docs : List Doc) : Decidable (ReadsEvery data docs) :=
  inferInstanceAs (Decidable (readDocs data = _))

theorem isSpace_of_isBlank (c : Char) (h : YamlStream.isBlank c = true) : isSpace c = true := by
  simp only [YamlStream.isBlank, Bool.or_eq_true, beq_iff_eq] at h
  rcases h with rfl | rfl <;> decide

theorem ne_marker_of_isSpace (c : Char) (h : isSpace c = true) : c ≠ '-' ∧ c ≠ '.' ∧ c ≠ '%' := by
  refine ⟨?_, ?_, ?_⟩ <;> rintro rfl <;> exact absurd h (by decide)

/-- A piece that is dropped has nothing in it. -/
theorem firstContents_of_trimSpace {p : Str} (hp : ∀ l ∈ linesOf p, separator l = false)
    (h : trimSpace p = []) : firstContents isSpace p = [] := by
  have hwhite : ∀ c ∈ p, isSpace c = true := by
    have hd : p.dropWhile isSpace = [] := by
      rw [trimSpace, List.reverse_eq_nil_iff, List.dropWhile_eq_nil_iff] at h
      cases hd : p.dropWhile isSpace with
      | nil => rfl
      | cons c s =>
          have hc := List.head?_dropWhile_not isSpace p
          have hc' := h c (by rw [hd]; simp)
          rw [hd] at hc
          simp [hc'] at hc
    exact List.dropWhile_eq_nil_iff.mp hd
  rw [firstContents_eq hp, pieceContents_of_white ne_marker_of_isSpace hwhite]
  rfl

/-- What is read: the contents of the first documents of all pieces. -/
theorem readDocs_eq (data : Str) (hno : ∀ p ∈ splitDocsFrom true 0 [] data,
    ∀ l ∈ linesOf p, separator l = false) :
    readDocs data =
      ((splitDocsFrom true 0 [] data).flatMap (firstContents isSpace)).map Prod.snd := by
  have hfirst : ∀ ps : List Str,
      ((ps.filterMap (firstDoc isSpace)).filter (Doc.nonEmpty isSpace)).map Doc.body =
        (ps.flatMap (firstContents isSpace)).map Prod.snd := by
    intro ps
    induction ps with
    | nil => rfl
    | cons p ps ih =>
        have hsnd : (firstContents isSpace p).map Prod.snd =
            ((firstDoc isSpace p).toList.filter (Doc.nonEmpty isSpace)).map Doc.body := by
          rw [firstContents, contents, List.map_map]
          rfl
        have hcons : (p :: ps).filterMap (firstDoc isSpace) =
            (firstDoc isSpace p).toList ++ ps.filterMap (firstDoc isSpace) := by
          cases h : firstDoc isSpace p <;> simp [h]
        rw [List.flatMap_cons, List.map_append, hsnd, ← ih, hcons, List.filter_append,
          List.map_append]
  have hdrop : ∀ ps : List Str, (∀ p ∈ ps, ∀ l ∈ linesOf p, separator l = false) →
      (ps.filter fun doc => decide (trimSpace doc ≠ [])).flatMap (firstContents isSpace) =
        ps.flatMap (firstContents isSpace) := by
    intro ps hps
    induction ps with
    | nil => rfl
    | cons p ps ih =>
        have ih := ih fun q hq => hps q (List.mem_cons_of_mem _ hq)
        rw [List.filter_cons]
        split <;> rename_i ht
        · rw [List.flatMap_cons, List.flatMap_cons, ih]
        · have ht' : trimSpace p = [] := by simpa using ht
          rw [List.flatMap_cons, firstContents_of_trimSpace (hps p List.mem_cons_self) ht', ih]
          rfl
  rw [readDocs, splitYAMLDocs, hfirst, hdrop _ hno]

/-- A part of a list that looks like the whole is the whole. -/
theorem map_filter_eq_map_iff {α β : Type} (f : α → Bool) (g : α → β) (l : List α) :
    (l.filter f).map g = l.map g ↔ ∀ a ∈ l, f a = true := by
  constructor
  · intro h
    have hlen := congrArg List.length h
    rw [List.length_map, List.length_map] at hlen
    exact List.filter_eq_self.mp (List.filter_sublist.eq_of_length hlen)
  · intro h
    rw [List.filter_eq_self.mpr h]

/-- **When every document of a stream is read**: exactly if each document that is not empty is
    the first one since the last separator. -/
theorem split_yaml_docs_iff (data : Str) (docs : List Doc) (hplain : PlainBreaks data)
    (hdocs : documents isSpace data = some docs) :
    ReadsEvery data docs ↔ ∀ d ∈ docs, d.nonEmpty isSpace = true → d.first = true := by
  obtain ⟨p, ps, hps, hcut⟩ := cut_splitDocs hplain
  have hno : ∀ q ∈ splitDocsFrom true 0 [] data, ∀ l ∈ linesOf q, separator l = false := by
    rw [hps]
    exact not_separator_of_cut hcut.cut
  have hall : contents isSpace docs =
      (splitDocsFrom true 0 [] data).flatMap (pieceContents isSpace) := by
    rw [hps]
    exact contents_of_cut isSpace_of_isBlank hcut.cut hdocs
  have hfirst : (splitDocsFrom true 0 [] data).flatMap (firstContents isSpace) =
      (contents isSpace docs).filter Prod.fst := by
    rw [hall, List.filter_flatMap]
    exact List.flatMap_congr fun q hq => firstContents_eq (hno q hq)
  have hbodies : (docs.filter (Doc.nonEmpty isSpace)).map Doc.body =
      (contents isSpace docs).map Prod.snd := by
    rw [contents, List.map_map]
    rfl
  rw [ReadsEvery, readDocs_eq data hno, hfirst, hbodies, map_filter_eq_map_iff]
  constructor
  · intro h d hd hne
    exact h _ (List.mem_map_of_mem (List.mem_filter.mpr ⟨hd, hne⟩))
  · intro h v hv
    obtain ⟨d, hd, rfl⟩ := List.mem_map.mp hv
    exact h d (List.mem_of_mem_filter hd) (List.mem_filter.mp hd).2

/-- Two documents, each behind a separator, in a file with CRLF line ends. -/
theorem split_yaml_docs_iff_two :
    ∃ data docs, PlainBreaks data ∧ documents isSpace data = some docs ∧ docs.length = 3 ∧
      (ReadsEvery data docs ↔ ∀ d ∈ docs, d.nonEmpty isSpace = true → d.first = true) := by
  let data : Str := "# two\r\n---\r\na: 1\r\n---\r\n# none\r\n--- # b\r\nb: 2\r\n".toList
  have hplain : PlainBreaks data := by decide
  have hdocs : documents isSpace data = some [⟨true, ["", "a: 1"].map String.toList⟩,
      ⟨true, ["", "# none"].map String.toList⟩, ⟨true, [" # b", "b: 2"].map String.toList⟩] := by
    decide
  exact ⟨data, _, hplain, hdocs, rfl, split_yaml_docs_iff data _ hplain hdocs⟩

/-- A document behind a `---` with a comment is not read. -/
theorem document_behind_comment_lost :
    ∃ docs, documents isSpace "a: 1\n--- # b\nb: 2\n".toList = some docs ∧
      PlainBreaks "a: 1\n--- # b\nb: 2\n".toList ∧
      docs.map Doc.body = [["a: 1".toList], [" # b".toList, "b: 2".toList]] ∧
      readDocs "a: 1\n--- # b\nb: 2\n".toList = [["a: 1".toList]] ∧
      ¬ ReadsEvery "a: 1\n--- # b\nb: 2\n".toList docs :=
  ⟨[⟨true, ["a: 1".toList]⟩, ⟨false, [" # b".toList, "b: 2".toList]⟩], by decide⟩

/-! ## 7. The three readers -/

/-- **What a reader finds in a document, it finds in the file**, where every document is read. -/
theorem exists_of_readsEvery {β : Type} {data : Str} {docs : List Doc} (h : ReadsEvery data docs)
    {d : Doc} (hd : d ∈ docs) (hne : d.nonEmpty isSpace = true) {f : Str → Option β} {P : β → Prop}
    (hf : ∀ text e, firstDoc isSpace text = some e → e.body = d.body → ∃ r, f text = some r ∧ P r) :
    ∃ r ∈ (splitYAMLDocs data).filterMap f, P r := by
  have hm : d.body ∈ readDocs data := by
    rw [h]
    exact List.mem_map_of_mem (List.mem_filter.mpr ⟨hd, hne⟩)
  obtain ⟨e, he, hbody⟩ := List.mem_map.mp hm
  obtain ⟨text, htext, hfirst⟩ := List.mem_filterMap.mp (List.mem_of_mem_filter he)
  obtain ⟨r, hr, hP⟩ := hf text e hfirst hbody
  exact ⟨r, List.mem_filterMap.mpr ⟨text, htext, hr⟩, hP⟩

section Readers

variable {data : Str} {docs : List Doc} (h : ReadsEvery data docs) {d : Doc} (hd : d ∈ docs)
  (hne : d.nonEmpty isSpace = true) (a : Str)
include h hd hne

/-- `Detect` finds the state store that a document declares. -/
theorem exists_fileComponent (rd : YamlReader) {rc : RawComponent}
    (hread : ∀ text e, firstDoc isSpace text = some e → e.body = d.body →
      rd.rawComponent text = some rc)
    (hkind : rc.kind = componentKind) (htype : Str.hasPrefix rc.type storeTypePrefix = true) :
    ∃ c ∈ fileComponents rd a data, c.name = rc.name ∧ c.type = .ofText rc.type := by
  refine exists_of_readsEvery h hd hne fun text e he hb => ?_
  rw [docComponent, hread text e he hb]
  simp only [hkind, htype, and_self, if_true]
  exact ⟨_, rfl, rfl, rfl⟩

/-- `DetectStores` finds the secret store that a document declares. -/
theorem exists_docStore (site : Secrets.Site) {rc : RawComponent}
    (hread : ∀ text e, firstDoc isSpace text = some e → e.body = d.body →
      site.rawComponent text = some rc)
    (hkind : rc.kind = componentKind) (htype : Secrets.isSecretStoreType rc.type = true) :
    ∃ st ∈ (splitYAMLDocs data).filterMap (Secrets.docStore site a),
      st.name = rc.name ∧ st.type = rc.type := by
  refine exists_of_readsEvery h hd hne fun text e he hb => ?_
  rw [Secrets.docStore, hread text e he hb]
  simp only [hkind, htype, and_self, if_true]
  exact ⟨_, rfl, rfl, rfl⟩

/-- `scan` finds the resource that a document declares. -/
theorem exists_docResource {R : Type} (svc : Resources.Service R) {rr : Resources.RawResource}
    {kind : Resources.Kind}
    (hread : ∀ text e, firstDoc isSpace text = some e → e.body = d.body →
      svc.files.rawResource text = some rr)
    (hkind : Resources.kindFromString rr.kind = some kind) :
    ∃ r ∈ (splitYAMLDocs data).filterMap (Resources.docResource svc kind a),
      r.name = rr.name ∧ r.kind = kind := by
  refine exists_of_readsEvery h hd hne fun text e he hb => ?_
  rw [Resources.docResource, hread text e he hb]
  simp only [hkind, if_true]
  exact ⟨_, rfl, rfl, rfl⟩

end Readers

end DevDashboard.StateStore
