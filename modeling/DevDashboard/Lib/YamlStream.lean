/-
  File:      DevDashboard/Lib/YamlStream.lean
  Subject:   THE DOCUMENTS OF A YAML STREAM.

  A stream is read line by line. A line that starts with `---` and then ends or goes on with a
  blank begins a document, with what stands behind the blank; a line that starts with `...` in
  the same way ends one; text outside begins a document by itself, unless it is a directive. A
  `%` where the content of a document begins is an error.

  A document knows whether it is the first since the last separator: a `---` with nothing behind
  it. A document is empty if it has only blanks and comments.

  * `scan_append` -- a separator takes a stream apart: its documents are those before it and
    those after it;
  * `scan_bare` -- after a separator, a stream of its own has the same documents;
  * `scan_first` -- between two separators, only the first document is a first one.
-/
import DevDashboard.Lib.Lines
import DevDashboard.Lib.Str

namespace DevDashboard.Lib.YamlStream

/-! ## 1. Lines -/

/-- A line without the CR of its line end. -/
def chomp (l : Str) : Str := if l.getLast? = some '\r' then l.dropLast else l

/-- The lines of a text; what follows the last line end counts if there is something. -/
def linesOf (s : Str) : List Str :=
  (Lines.lines '\n' s).map chomp ++
    if Lines.rest '\n' s = [] then [] else [chomp (Lines.rest '\n' s)]

theorem linesOf_append {a : Str} (h : Lines.rest '\n' a = []) (b : Str) :
    linesOf (a ++ b) = linesOf a ++ linesOf b := by
  rw [linesOf, linesOf, linesOf, Lines.lines_append_of_rest h, Lines.rest_append_of_rest h, h,
    if_pos rfl, List.append_nil, List.map_append, List.append_assoc]

theorem exists_of_mem_linesOf {l s : Str} (h : l ∈ linesOf s) :
    ∃ x ∈ s.splitOn '\n', l = chomp x := by
  rw [Lines.splitOn_eq]
  rcases List.mem_append.mp h with h | h
  · obtain ⟨x, hx, rfl⟩ := List.mem_map.mp h
    exact ⟨x, List.mem_append_left _ hx, rfl⟩
  · split at h
    · cases h
    · rw [List.mem_singleton] at h
      exact ⟨_, List.mem_append_right _ (List.mem_singleton_self _), h⟩

/-- A line is its text, or its text and a CR. -/
theorem eq_chomp (l : Str) : l = chomp l ∨ l = chomp l ++ ['\r'] := by
  unfold chomp
  split
  · rename_i h
    rcases l.eq_nil_or_concat' with rfl | ⟨l, c, rfl⟩
    · exact .inl rfl
    · rw [List.getLast?_concat, Option.some.injEq] at h
      rw [List.dropLast_concat, h]
      exact .inr rfl
  · exact .inl rfl

theorem chomp_append {x : Str} (hx : x.getLast? ≠ some '\r') (w : Str) :
    chomp (x ++ w) = x ++ chomp w := by
  rcases w.eq_nil_or_concat' with rfl | ⟨w, c, rfl⟩
  · rw [List.append_nil, chomp, if_neg hx]
    exact (List.append_nil x).symm
  · unfold chomp
    rw [← List.append_assoc, List.getLast?_concat, List.getLast?_concat]
    split
    · rw [List.dropLast_concat, List.dropLast_concat]
    · rw [List.append_assoc]

/-- One whole line. -/
theorem linesOf_cons {l : Str} (h : '\n' ∉ l) (s : Str) :
    linesOf (l ++ '\n' :: s) = chomp l :: linesOf s := by
  have hl : linesOf (l ++ ['\n']) = [chomp l] := by
    rw [linesOf, Lines.rest_concat, if_pos rfl, Lines.lines_concat, Lines.lines_of_not_mem h,
      Lines.rest_of_not_mem h]
    rfl
  have happ := linesOf_append (Lines.rest_concat l) s
  rwa [hl, List.append_assoc, List.singleton_append] at happ

theorem linesOf_of_not_mem {l : Str} (h : '\n' ∉ l) (hne : l ≠ []) : linesOf l = [chomp l] := by
  rw [linesOf, Lines.lines_of_not_mem h, Lines.rest_of_not_mem h, if_neg hne]
  rfl

/-- Space and tab. -/
def isBlank (c : Char) : Bool := c == ' ' || c == '\t'

def blankLine (l : Str) : Bool := l.all isBlank

/-- What a line is for the stream. -/
inductive Mark where
  | start (behind : Str)
  | stop
  | text
  deriving DecidableEq

/-- A marker is a word at the beginning of a line. -/
def after? (word l : Str) : Option Str :=
  if Str.hasPrefix l word ∧ (l.drop word.length).head?.all isBlank then some (l.drop word.length)
  else none

def mark (l : Str) : Mark :=
  match after? ['-', '-', '-'] l with
  | some behind => .start behind
  | none => if (after? ['.', '.', '.'] l).isSome then .stop else .text

/-- A separator: a `---` with nothing behind it. -/
def separator (l : Str) : Bool :=
  match mark l with
  | .start behind => blankLine behind
  | _ => false

/-! ## 2. Documents -/

/-- A line with something that is no blank and no comment; `white` says what counts as blank. -/
def contentLine (white : Char → Bool) (l : Str) : Bool :=
  !l.all white && decide ((l.dropWhile isBlank).head? ≠ some '#')

/-- How a document began: by itself, at a separator, or at a `---` with something behind it. -/
inductive Begin where
  | implicit
  | bare
  | marked
  deriving DecidableEq

structure Doc where
  /-- No other document since the last separator. -/
  first : Bool
  lines : List Str
  deriving DecidableEq

/-- The lines of a document from its first nonblank one on. -/
def Doc.body (d : Doc) : List Str := d.lines.dropWhile blankLine

section Scan

variable (white : Char → Bool)

def hasContent (ls : List Str) : Bool := ls.any (contentLine white)

def Doc.nonEmpty (d : Doc) : Bool := hasContent white d.lines

/-- The document that ends here, if there is one. -/
def close (k : Begin) (first : Bool) (cur : List Str) : List Doc :=
  if k ≠ .implicit ∨ hasContent white cur then [⟨first, cur⟩] else []

/-- Whether the next document is still a first one. -/
def stillFirst (k : Begin) (first : Bool) (cur : List Str) : Bool :=
  first && !(decide (k = .marked) || hasContent white cur)

/-- The documents of the remaining lines; `cur` is what the current one has so far. -/
def scan (k : Begin) (first : Bool) (cur : List Str) : List Str → Option (List Doc)
  | [] => some (close white k first cur)
  | l :: ls =>
      match mark l with
      | .start behind =>
          if blankLine behind then
            (scan .bare true [behind] ls).map (close white k first cur ++ ·)
          else
            (scan .marked (stillFirst white k first cur) [behind] ls).map
              (close white k first cur ++ ·)
      | .stop =>
          (scan .implicit (stillFirst white k first cur) [] ls).map (close white k first cur ++ ·)
      | .text =>
          if l.head? = some '%' ∧ hasContent white cur = false then
            if k = .implicit then scan .implicit first cur ls else none
          else scan k first (cur ++ [l]) ls

/-- The documents of a text, unless it is no stream. -/
def documents (s : Str) : Option (List Doc) := scan white .implicit true [] (linesOf s)

/-- What a reader of one document reads. -/
def firstDoc (s : Str) : Option Doc := (documents white s).bind List.head?

/-! ## 3. Separators -/

variable {white}

theorem mark_separator {l : Str} (h : separator l = true) :
    mark l = .start (l.drop 3) ∧ blankLine (l.drop 3) = true := by
  unfold separator mark at h
  unfold mark
  cases ha : after? ['-', '-', '-'] l with
  | none =>
      rw [ha] at h
      cases hs : (after? ['.', '.', '.'] l).isSome <;> simp [hs] at h
  | some behind =>
      rw [ha] at h
      unfold after? at ha
      split at ha
      · obtain rfl := Option.some.inj ha
        exact ⟨rfl, h⟩
      · cases ha

/-- **A separator takes a stream apart.** -/
theorem scan_append {l : Str} (hl : separator l = true) (ls ms : List Str) (k : Begin) (f : Bool)
    (cur : List Str) :
    scan white k f cur (ls ++ l :: ms) = (scan white k f cur ls).bind fun ds =>
      (scan white .bare true [l.drop 3] ms).map (ds ++ ·) := by
  induction ls generalizing k f cur with
  | nil =>
      obtain ⟨hm, hb⟩ := mark_separator hl
      simp only [List.nil_append, scan, hm, hb, if_true, Option.bind_some]
  | cons x ls ih =>
      -- what is closed before the separator stays in front of what is read after it
      have hmap : ∀ (c : List Doc) (o : Option (List Doc)),
          (o.bind fun ds => (scan white .bare true [l.drop 3] ms).map (ds ++ ·)).map (c ++ ·) =
            (o.map (c ++ ·)).bind fun ds => (scan white .bare true [l.drop 3] ms).map (ds ++ ·) := by
        intro c o
        cases o <;> simp [Function.comp_def]
      rw [List.cons_append, scan, scan]
      split
      · split
        · rw [ih, hmap]
        · rw [ih, hmap]
      · rw [ih, hmap]
      · split
        · split
          · exact ih _ _ _
          · rfl
        · exact ih _ _ _

/-! ## 4. Blank lines -/

/-- A line that begins with no marker's character is text. -/
theorem mark_of_head {l : Str} (h : ∀ c ∈ l.head?, c ≠ '-' ∧ c ≠ '.') : mark l = .text := by
  cases l with
  | nil => rfl
  | cons c l =>
      obtain ⟨h1, h2⟩ := h c rfl
      have hword : ∀ d, c ≠ d → ∀ w, Str.hasPrefix (c :: l) (d :: w) = false := by
        intro d hd w
        rw [← Bool.not_eq_true, Str.hasPrefix_iff, List.cons_prefix_cons]
        exact fun hp => hd hp.1.symm
      simp [mark, after?, hword '-' h1, hword '.' h2]

theorem mark_of_blankLine {l : Str} (h : blankLine l = true) : mark l = .text ∧ l.head? ≠ some '%' := by
  have hhead : ∀ c ∈ l.head?, isBlank c = true := fun c hc =>
    List.all_eq_true.mp h c (List.mem_of_mem_head? hc)
  refine ⟨mark_of_head fun c hc => ?_, fun he => ?_⟩
  · have hb := hhead c hc
    constructor <;> rintro rfl <;> cases hb
  · cases hhead _ he

theorem separator_of_blankLine {l : Str} (h : blankLine l = true) : separator l = false := by
  rw [separator, (mark_of_blankLine h).1]

/-- A document as its reader sees it: without the blank lines before its first other one. -/
def Doc.view (d : Doc) : Bool × List Str := (d.first, d.body)

variable (hwhite : ∀ c, isBlank c = true → white c = true)
include hwhite

theorem contentLine_of_blankLine {l : Str} (h : blankLine l = true) : contentLine white l = false := by
  have hall : l.all white = true :=
    List.all_eq_true.mpr fun c hc => hwhite c (List.all_eq_true.mp h c hc)
  rw [contentLine, hall]
  rfl

theorem hasContent_dropWhile (ls : List Str) :
    hasContent white (ls.dropWhile blankLine) = hasContent white ls := by
  induction ls with
  | nil => rfl
  | cons l ls ih =>
      rw [List.dropWhile_cons]
      split
      · rename_i h
        rw [ih, hasContent, hasContent, List.any_cons, contentLine_of_blankLine hwhite h,
          Bool.false_or]
      · rfl

theorem hasContent_congr {cur cur' : List Str}
    (h : cur.dropWhile blankLine = cur'.dropWhile blankLine) :
    hasContent white cur = hasContent white cur' := by
  rw [← hasContent_dropWhile hwhite cur, h, hasContent_dropWhile hwhite cur']

theorem close_congr {cur cur' : List Str}
    (h : cur.dropWhile blankLine = cur'.dropWhile blankLine) (k : Begin) (f : Bool) :
    (close white k f cur).map Doc.view = (close white k f cur').map Doc.view := by
  unfold close
  rw [hasContent_congr hwhite h]
  split
  · simp [Doc.view, Doc.body, h]
  · rfl

/-- Blank lines at the beginning of a document change none of its documents' bodies. -/
theorem scan_congr {cur cur' : List Str}
    (h : cur.dropWhile blankLine = cur'.dropWhile blankLine) (ls : List Str) (k : Begin) (f : Bool) :
    (scan white k f cur ls).map (List.map Doc.view) =
      (scan white k f cur' ls).map (List.map Doc.view) := by
  induction ls generalizing k f cur cur' with
  | nil =>
      rw [scan, scan, Option.map_some, Option.map_some, close_congr hwhite h]
  | cons l ls ih =>
      have hcontent := hasContent_congr hwhite h
      have hclose : ∀ o : Option (List Doc),
          (o.map (close white k f cur ++ ·)).map (List.map Doc.view) =
            (o.map (close white k f cur' ++ ·)).map (List.map Doc.view) := by
        intro o
        cases o <;> simp [close_congr hwhite h]
      have hstill : stillFirst white k f cur = stillFirst white k f cur' := by
        rw [stillFirst, stillFirst, hcontent]
      rw [scan, scan, hstill, hcontent]
      split
      · split <;> exact hclose _
      · exact hclose _
      · split
        · split
          · exact ih h .implicit f
          · rfl
        · refine ih ?_ k f
          rw [List.dropWhile_append, List.dropWhile_append, h]

/-- Blank lines before a stream say nothing. -/
theorem scan_dropWhile (ls : List Str) (f : Bool) :
    (scan white .implicit f [] ls).map (List.map Doc.view) =
      (scan white .implicit f [] (ls.dropWhile blankLine)).map (List.map Doc.view) := by
  induction ls with
  | nil => rfl
  | cons l ls ih =>
      rw [List.dropWhile_cons]
      split
      · rename_i h
        obtain ⟨hm, hp⟩ := mark_of_blankLine h
        have hblank : ([] ++ [l]).dropWhile blankLine = ([] : List Str).dropWhile blankLine := by
          simp [h]
        rw [← ih, scan, hm]
        simp only [hp, false_and, if_false]
        exact scan_congr hwhite hblank ls _ f
      · rfl

omit hwhite

/-! ## 5. Streams between separators -/

variable (white) in
/-- The documents with something in them. -/
def contents (ds : List Doc) : List (Bool × List Str) :=
  (ds.filter (Doc.nonEmpty white)).map Doc.view

theorem contents_append (ds es : List Doc) :
    contents white (ds ++ es) = contents white ds ++ contents white es := by
  rw [contents, List.filter_append, List.map_append]
  rfl

theorem contents_close (k : Begin) (f : Bool) (cur : List Str) :
    contents white (close white k f cur) =
      if hasContent white cur then [(f, cur.dropWhile blankLine)] else [] := by
  unfold close contents
  split <;> rename_i h
  · cases hc : hasContent white cur <;> simp [Doc.nonEmpty, hc, Doc.view, Doc.body]
  · rw [not_or] at h
    simp [h.2]

/-- **After a separator**, a stream of its own has the same documents. -/
theorem scan_bare {ls : List Str} {f : Bool} {cur : List Str} {ds : List Doc}
    (h : scan white .bare f cur ls = some ds) :
    ∃ es, scan white .implicit f cur ls = some es ∧ contents white ds = contents white es := by
  induction ls generalizing cur ds with
  | nil =>
      obtain rfl := Option.some.inj h
      exact ⟨_, rfl, by rw [contents_close, contents_close]⟩
  | cons l ls ih =>
      -- what the document closes with is the same, and so is what follows it
      have hclose : ∀ o : Option (List Doc), o.map (close white .bare f cur ++ ·) = some ds →
          ∃ es, o.map (close white .implicit f cur ++ ·) = some es ∧
            contents white ds = contents white es := by
        intro o ho
        obtain ⟨rs, rfl, rfl⟩ := Option.map_eq_some_iff.mp ho
        refine ⟨_, rfl, ?_⟩
        rw [contents_append, contents_append, contents_close, contents_close]
      have hstill : stillFirst white .implicit f cur = stillFirst white .bare f cur := rfl
      rw [scan] at h ⊢
      split at h
      · split at h <;> rename_i hb
        · simp only [hb, if_true]
          exact hclose _ h
        · simp only [hb, hstill]
          exact hclose _ h
      · rw [hstill]
        exact hclose _ h
      · split at h <;> rename_i hd
        · rw [if_neg (by decide)] at h
          cases h
        · rw [if_neg hd]
          exact ih h

/-- **Between two separators**, only the first document is a first one. -/
theorem scan_first {ls : List Str} (hls : ∀ l ∈ ls, separator l = false) {k : Begin}
    (hk : k ≠ .bare) {f : Bool} {cur : List Str} {ds : List Doc}
    (h : scan white k f cur ls = some ds) :
    (∀ d ∈ ds.head?, d.first = f) ∧ ∀ d ∈ ds.tail, d.first = false := by
  induction ls generalizing k f cur ds with
  | nil =>
      obtain rfl := Option.some.inj h
      unfold close
      split <;> simp
  | cons l ls ih =>
      have hls' : ∀ l ∈ ls, separator l = false := fun l hl => hls l (List.mem_cons_of_mem _ hl)
      -- a document that ends leaves no first one behind it
      have hclose : ∀ (k' : Begin) (cur' : List Str), k' ≠ .bare → ∀ {ds : List Doc},
          (scan white k' (stillFirst white k f cur) cur' ls).map (close white k f cur ++ ·) = some ds →
          (∀ d ∈ ds.head?, d.first = f) ∧ ∀ d ∈ ds.tail, d.first = false := by
        intro k' cur' hk' ds ho
        obtain ⟨rs, hrs, rfl⟩ := Option.map_eq_some_iff.mp ho
        obtain ⟨hhead, htail⟩ := ih hls' hk' hrs
        by_cases hc : k ≠ .implicit ∨ hasContent white cur = true
        · have hstill : stillFirst white k f cur = false := by
            rcases hc with hc | hc
            · cases k <;> simp_all [stillFirst]
            · simp [stillFirst, hc]
          rw [hstill] at hhead
          rw [close, if_pos hc]
          refine ⟨by simp, ?_⟩
          rw [List.singleton_append, List.tail_cons]
          cases rs with
          | nil => simp
          | cons r rs =>
              intro d hd
              rcases List.mem_cons.mp hd with rfl | hd
              · exact hhead _ rfl
              · exact htail d hd
        · have hstill : stillFirst white k f cur = f := by
            rw [not_or, not_not] at hc
            simp [stillFirst, hc.1, hc.2]
          rw [hstill] at hhead
          rw [close, if_neg hc, List.nil_append]
          exact ⟨hhead, htail⟩
      rw [scan] at h
      split at h
      · rename_i behind hm
        have hb : blankLine behind = false := by
          have := hls l List.mem_cons_self
          rwa [separator, hm] at this
        rw [hb, if_neg Bool.false_ne_true] at h
        exact hclose _ _ (by decide) h
      · exact hclose _ _ (by decide) h
      · split at h
        · split at h
          · exact ih hls' (by decide) h
          · cases h
        · exact ih hls' hk h

/-! ## 6. A stream cut at its separators -/

/-- The texts a stream is cut into at its separators, up to blank lines before them. -/
inductive Cut : List Str → List Str → Prop where
  | last {p : Str} {ls : List Str} (hp : (linesOf p).dropWhile blankLine = ls.dropWhile blankLine)
      (hls : ∀ l ∈ ls, separator l = false) : Cut [p] ls
  | cons {p : Str} {ps ls ms : List Str} {l : Str}
      (hp : (linesOf p).dropWhile blankLine = ls.dropWhile blankLine)
      (hls : ∀ l ∈ ls, separator l = false) (hl : separator l = true) (h : Cut ps ms) :
      Cut (p :: ps) (ls ++ l :: ms)

variable (white) in
/-- The documents of a piece with something in them. -/
def pieceContents (p : Str) : List (Bool × List Str) :=
  ((documents white p).map (contents white)).getD []

include hwhite in
theorem nonEmpty_eq_body (d : Doc) : d.nonEmpty white = hasContent white d.view.2 :=
  (hasContent_dropWhile hwhite d.lines).symm

include hwhite in
theorem contents_congr {ds es : List Doc} (h : ds.map Doc.view = es.map Doc.view) :
    contents white ds = contents white es := by
  have hview : ∀ ds : List Doc, contents white ds =
      (ds.map Doc.view).filter fun v => hasContent white v.2 := by
    intro ds
    rw [contents, List.filter_map]
    congr 1
    exact List.filter_congr fun d _ => nonEmpty_eq_body hwhite d
  rw [hview, hview, h]

include hwhite in
/-- Lines that differ in blank ones at the beginning are the same stream. -/
theorem scan_implicit_congr {ls ms : List Str}
    (h : ls.dropWhile blankLine = ms.dropWhile blankLine) {f : Bool} {ds : List Doc}
    (hs : scan white .implicit f [] ls = some ds) :
    ∃ es, scan white .implicit f [] ms = some es ∧ ds.map Doc.view = es.map Doc.view := by
  have heq := (scan_dropWhile hwhite ls f).trans (h ▸ (scan_dropWhile hwhite ms f).symm)
  rw [hs, Option.map_some] at heq
  obtain ⟨es, hes, hv⟩ := Option.map_eq_some_iff.mp heq.symm
  exact ⟨es, hes, hv.symm⟩

include hwhite in
theorem pieceContents_of_scan {p : Str} {ls : List Str}
    (hp : (linesOf p).dropWhile blankLine = ls.dropWhile blankLine) {ds : List Doc}
    (h : scan white .implicit true [] ls = some ds) : contents white ds = pieceContents white p := by
  obtain ⟨es, hes, hv⟩ := scan_implicit_congr hwhite hp.symm h
  rw [pieceContents, documents, hes, contents_congr hwhite hv]
  rfl

include hwhite in
/-- **The documents of a stream are those of its pieces.** -/
theorem contents_of_cut {ps ls : List Str} (hcut : Cut ps ls) {ds : List Doc}
    (h : scan white .implicit true [] ls = some ds) :
    contents white ds = ps.flatMap (pieceContents white) := by
  induction hcut generalizing ds with
  | last hp hls =>
      rw [List.flatMap_singleton]
      exact pieceContents_of_scan hwhite hp h
  | @cons p ps ls ms l hp hls hl _ ih =>
      rw [scan_append hl] at h
      obtain ⟨ds₁, hds₁, h⟩ := Option.bind_eq_some_iff.mp h
      obtain ⟨ds₂, hds₂, rfl⟩ := Option.map_eq_some_iff.mp h
      -- behind the separator: the blank rest of its line says nothing
      obtain ⟨es, hes, hcontents⟩ := scan_bare hds₂
      have hblank : [l.drop 3].dropWhile blankLine = ([] : List Str).dropWhile blankLine := by
        simp [(mark_separator hl).2]
      have heq := scan_congr hwhite hblank ms .implicit true
      rw [hes, Option.map_some] at heq
      obtain ⟨es', hes', hv⟩ := Option.map_eq_some_iff.mp heq.symm
      rw [contents_append, pieceContents_of_scan hwhite hp hds₁, hcontents,
        contents_congr hwhite hv.symm, ih hes', List.flatMap_cons]

/-- A piece of white space has no documents to speak of. -/
theorem pieceContents_of_white (hmarks : ∀ c, white c = true → c ≠ '-' ∧ c ≠ '.' ∧ c ≠ '%') {p : Str}
    (hp : ∀ c ∈ p, white c = true) : pieceContents white p = [] := by
  have hscan : ∀ (ls : List Str) (cur : List Str), (∀ l ∈ ls, l.all white = true) →
      hasContent white cur = false →
      ∃ ds, scan white .implicit true cur ls = some ds ∧ contents white ds = [] := by
    intro ls
    induction ls with
    | nil =>
        intro cur _ hcur
        exact ⟨_, rfl, by rw [contents_close, hcur]; rfl⟩
    | cons l ls ih =>
        intro cur hls hcur
        have hl := hls l List.mem_cons_self
        have hhead : ∀ c ∈ l.head?, c ≠ '-' ∧ c ≠ '.' ∧ c ≠ '%' := fun c hc =>
          hmarks c (List.all_eq_true.mp hl c (List.mem_of_mem_head? hc))
        have hperc : l.head? ≠ some '%' := fun he => (hhead _ he).2.2 rfl
        rw [scan, mark_of_head fun c hc => ⟨(hhead c hc).1, (hhead c hc).2.1⟩]
        simp only [hperc, false_and, if_false]
        refine ih _ (fun x hx => hls x (List.mem_cons_of_mem _ hx)) ?_
        rw [hasContent, List.any_append, ← hasContent, hcur, Bool.false_or, List.any_cons, contentLine, hl]
        rfl
  have hlines : ∀ l ∈ linesOf p, l.all white = true := by
    intro l hl
    obtain ⟨x, hx, rfl⟩ := exists_of_mem_linesOf hl
    refine List.all_eq_true.mpr fun c hc => hp c (Lines.subset_of_mem_splitOn hx ?_)
    rcases eq_chomp x with he | he
    · rw [he]
      exact hc
    · rw [he]
      exact List.mem_append_left _ hc
  obtain ⟨ds, hds, hc⟩ := hscan (linesOf p) [] hlines rfl
  rw [pieceContents, documents, hds]
  exact hc

theorem not_separator_of_cut {ps ls : List Str} (hcut : Cut ps ls) :
    ∀ p ∈ ps, ∀ l ∈ linesOf p, separator l = false := by
  have hpiece : ∀ {p : Str} {ls : List Str},
      (linesOf p).dropWhile blankLine = ls.dropWhile blankLine →
      (∀ l ∈ ls, separator l = false) → ∀ l ∈ linesOf p, separator l = false := by
    intro p ls hp hls l hl
    rw [← List.takeWhile_append_dropWhile (p := blankLine) (l := linesOf p), List.mem_append] at hl
    rcases hl with hl | hl
    · exact separator_of_blankLine (List.all_eq_true.mp List.all_takeWhile _ hl)
    · rw [hp] at hl
      exact hls l ((List.dropWhile_sublist _).subset hl)
  induction hcut with
  | last hp hls =>
      intro p hm
      rw [List.mem_singleton.mp hm]
      exact hpiece hp hls
  | cons hp hls hl _ ih =>
      intro p hm
      rcases List.mem_cons.mp hm with rfl | hm
      · exact hpiece hp hls
      · exact ih p hm

variable (white) in
/-- What a reader of one document reads of a piece, if there is something in it. -/
def firstContents (p : Str) : List (Bool × List Str) :=
  contents white (firstDoc white p).toList

/-- **A reader of one document** reads the first documents of the pieces. -/
theorem firstContents_eq {p : Str} (hp : ∀ l ∈ linesOf p, separator l = false) :
    firstContents white p = (pieceContents white p).filter Prod.fst := by
  rw [firstContents, firstDoc, pieceContents, documents]
  cases h : scan white .implicit true [] (linesOf p) with
  | none => rfl
  | some ds =>
      obtain ⟨hhead, htail⟩ := scan_first hp (by decide) h
      show contents white ds.head?.toList = (contents white ds).filter Prod.fst
      cases ds with
      | nil => rfl
      | cons d ds =>
          have hd : d.first = true := hhead d rfl
          have hrest : (contents white ds).filter Prod.fst = [] := by
            refine List.filter_eq_nil_iff.mpr fun v hv => ?_
            obtain ⟨e, he, rfl⟩ := List.mem_map.mp hv
            rw [Doc.view, htail e (List.mem_of_mem_filter he)]
            exact Bool.false_ne_true
          have hcons : contents white (d :: ds) = contents white [d] ++ contents white ds :=
            contents_append [d] ds
          rw [hcons, List.filter_append, hrest, List.append_nil]
          refine (List.filter_eq_self.mpr fun v hv => ?_).symm
          obtain ⟨e, he, rfl⟩ := List.mem_map.mp hv
          rw [List.mem_singleton.mp (List.mem_of_mem_filter he)]
          exact hd

end Scan

end DevDashboard.Lib.YamlStream
