/-
  File:      DevDashboard/Server/Logs.lean
  Subject:   LOG LINES AS SERVER-SENT EVENTS (pkg/server/logs.go, pkg/server/controlplane.go,
             useLogStream.ts).

  The handler writes every line it receives as `data: <line>` and a blank line, after it has
  taken off the prefix of captured lines and the colour codes. The page reads the stream with an
  `EventSource` and keeps the data of the events of type `message`.

  * `messages_writeAll` -- **what the page receives** where no line has a CR inside: one message
    a line, without the line's last CR;
  * `log_lines_survive_iff` -- every line arrives as one message, up to a last CR, exactly if no
    normalized line holds a CR before its last character.
-/
import DevDashboard.Lib.EventStream
import Mathlib.Data.List.Forall2

namespace DevDashboard.Server

open Lib Lib.EventStream

/-! ## 1. `normalizeLine` -/

/-- `\d` of a regular expression. -/
def isDigit (c : Char) : Bool := '0' ≤ c && c ≤ '9'

/-- `\s` of a regular expression. -/
def isSpace (c : Char) : Bool := decide (c ∈ ['\t', '\n', '\x0c', '\r', ' '])

/-- `dcpPrefixRE.ReplaceAllString(line, "")` with `^\d+\s+\S+Z\s+`: each run is taken to its end,
    since what follows it is of another kind, but for the `Z` that ends the run of `\S`. -/
def stripDcpPrefix (line : Str) : Str :=
  let digits := line.takeWhile isDigit
  let s₁ := line.dropWhile isDigit
  let gap := s₁.takeWhile isSpace
  let s₂ := s₁.dropWhile isSpace
  let stamp := s₂.takeWhile (fun c => !isSpace c)
  let s₃ := s₂.dropWhile (fun c => !isSpace c)
  let tail := s₃.takeWhile isSpace
  if digits ≠ [] ∧ gap ≠ [] ∧ 2 ≤ stamp.length ∧ stamp.getLast? = some 'Z' ∧ tail ≠ [] then
    s₃.dropWhile isSpace
  else line

/-- `[0-9;]` of a regular expression. -/
def isColourChar (c : Char) : Bool := isDigit c || c == ';'

/-- How much `\x1b\[[0-9;]*m` takes at the beginning of a text. -/
def ansiLength : Str → Option Nat
  | '\x1b' :: '[' :: s =>
      let params := s.takeWhile isColourChar
      if (s.dropWhile isColourChar).head? = some 'm' then some (3 + params.length) else none
  | _ => none

/-- `ansiRE.ReplaceAllString(line, "")`: `skip` characters of a colour code are still to be
    dropped. -/
def stripAnsiFrom : Nat → Str → Str
  | _, [] => []
  | skip + 1, _ :: s => stripAnsiFrom skip s
  | 0, c :: s =>
      match ansiLength (c :: s) with
      | some n => stripAnsiFrom (n - 1) s
      | none => c :: stripAnsiFrom 0 s

/-- The format of lines that the orchestrator captured. -/
def dcpFormat : Str := "dcp".toList

def normalizeLine (line format : Str) : Str :=
  stripAnsiFrom 0 (if format = dcpFormat then stripDcpPrefix line else line)

/-! ## 2. The write loop and the page -/

/-- `fmt.Fprintf(w, "data: %s\n\n", …)`. -/
def writeLine (text : Str) : Str := "data: ".toList ++ text ++ "\n\n".toList

/-- What `logsHandler` has written for the lines received so far. -/
def writeAll (format : Str) (lines : List Str) : Str :=
  lines.flatMap fun line => writeLine (normalizeLine line format)

/-- `es.onmessage`: the data of the events of type `message`. -/
def messages (stream : Str) : List Str :=
  ((events stream).filter fun m => decide (m.type = messageType)).map Message.data

/-- A message shows a line, up to one CR at the line's end. -/
def Shows (text message : Str) : Prop := text = message ∨ text = message ++ [cr]

instance (text message : Str) : Decidable (Shows text message) :=
  inferInstanceAs (Decidable (_ ∨ _))

/-- **The lines survive the stream**: one message a line, in order, each showing its line. -/
def LinesSurvive (format : Str) (lines : List Str) : Prop :=
  List.Forall₂ Shows (lines.map (normalizeLine · format)) (messages (writeAll format lines))

/-! ## 3. A line without a line break stays one -/

theorem stripDcpPrefix_suffix (line : Str) : stripDcpPrefix line <:+ line := by
  unfold stripDcpPrefix
  dsimp only
  split
  · exact (List.dropWhile_suffix _).trans ((List.dropWhile_suffix _).trans
      ((List.dropWhile_suffix _).trans (List.dropWhile_suffix _)))
  · exact List.suffix_refl line

theorem stripAnsiFrom_sublist (skip : Nat) (line : Str) :
    List.Sublist (stripAnsiFrom skip line) line := by
  fun_induction stripAnsiFrom skip line with
  | case1 => exact List.Sublist.slnil
  | case2 _ _ _ ih => exact ih.cons _
  | case3 _ _ _ _ ih => exact ih.cons _
  | case4 _ _ _ ih => exact ih.cons_cons _

theorem normalizeLine_sublist (line format : Str) :
    List.Sublist (normalizeLine line format) line := by
  refine (stripAnsiFrom_sublist 0 _).trans ?_
  split
  · exact (stripDcpPrefix_suffix line).sublist
  · exact List.Sublist.refl line

/-! ## 4. The stream as the page reads it -/

/-- A text without its last character, where that is a CR. -/
def trimCR (t : Str) : Str := if t.getLast? = some cr then t.dropLast else t

variable {format : Str} {lines : List Str}

/-- A text ends in the CR that is taken off, or in none. -/
theorem eq_trimCR (t : Str) : t = trimCR t ++ [cr] ∨ (t = trimCR t ∧ t.getLast? ≠ some cr) := by
  unfold trimCR
  split
  · rename_i h
    rcases t.eq_nil_or_concat' with rfl | ⟨t, c, rfl⟩
    · cases h
    · rw [List.getLast?_concat, Option.some.injEq] at h
      rw [List.dropLast_concat, h]
      exact .inl rfl
  · rename_i h
    exact .inr ⟨rfl, h⟩

theorem shows_trimCR (t : Str) : Shows t (trimCR t) := by
  rcases eq_trimCR t with h | ⟨h, _⟩
  · exact .inr h
  · exact .inl h

theorem not_mem_trimCR {t : Str} (h : cr ∉ t.dropLast) : cr ∉ trimCR t := by
  unfold trimCR
  split
  · exact h
  · rename_i hlast
    rcases t.eq_nil_or_concat' with rfl | ⟨t, c, rfl⟩
    · exact List.not_mem_nil
    · rw [List.getLast?_concat, Option.some.injEq] at hlast
      rw [List.dropLast_concat] at h
      exact List.not_mem_append h (by simpa using Ne.symm hlast)

theorem trimCR_subset (t : Str) : trimCR t ⊆ t := by
  unfold trimCR
  split
  · exact List.dropLast_subset t
  · exact List.Subset.refl t

/-- A block, as a field and two line ends. -/
theorem writeLine_append (t s : Str) :
    writeLine t ++ s = dataName ++ [':', ' '] ++ t ++ lf :: lf :: s := by
  have hfield : "data: ".toList = dataName ++ [':', ' '] := by decide
  have hend : "\n\n".toList = [lf, lf] := by decide
  show ("data: ".toList ++ t ++ "\n\n".toList) ++ s = _
  rw [hfield, hend, List.append_assoc _ [lf, lf] s]
  rfl

/-- A text whose only CR is its last character, written as a block, is a field and a blank line. -/
theorem lines_writeLine {t : Str} (hlf : lf ∉ t) (hcr : cr ∉ t.dropLast) (s : Str) :
    EventStream.lines (writeLine t ++ s) =
      (dataName ++ [':', ' '] ++ trimCR t) :: [] :: EventStream.lines s := by
  have hblank : EventStream.lines (lf :: s) = [] :: EventStream.lines s :=
    lines_append_lf ⟨List.not_mem_nil, List.not_mem_nil⟩ s
  have ht : Unbroken (dataName ++ [':', ' '] ++ trimCR t) := by
    constructor
    · exact List.not_mem_append (by decide) (not_mem_trimCR hcr)
    · exact List.not_mem_append (by decide) fun hm => hlf (trimCR_subset t hm)
  -- the line ends at its CR and the LF that is written after it, or at that LF
  rcases eq_trimCR t with h | ⟨h, _⟩
  · rw [← hblank, ← lines_append_crlf ht, writeLine_append]
    nth_rewrite 1 [h]
    simp [cr, lf]
  · rw [← hblank, ← lines_append_lf ht, ← h, writeLine_append]

/-- The parser between two blocks: nothing is left of the last one. -/
theorem foldl_writeAll {p : Parser} (hd : p.data = []) (he : p.eventType = []) (ts : List Str)
    (hts : ∀ t ∈ ts, lf ∉ t ∧ cr ∉ t.dropLast) :
    ((EventStream.lines (ts.flatMap writeLine)).foldl Parser.line p).dispatched =
      p.dispatched ++ ts.map fun t => ⟨messageType, trimCR t, p.lastEventId⟩ := by
  induction ts generalizing p with
  | nil => simp [EventStream.lines, linesFrom]
  | cons t ts ih =>
      obtain ⟨hlf, hcr⟩ := hts t List.mem_cons_self
      have hblock := foldl_block hd he (trimCR t)
      rw [List.flatMap_cons, lines_writeLine hlf hcr]
      show ((EventStream.lines (ts.flatMap writeLine)).foldl Parser.line
        ([_, []].foldl Parser.line p)).dispatched = _
      have hrest := @ih { p with dispatched := p.dispatched ++ [⟨messageType, trimCR t, p.lastEventId⟩] }
        hd he fun t' hm => hts t' (List.mem_cons_of_mem _ hm)
      rw [hblock, hrest]
      simp

/-- **What the page receives**: one message a line, without the line's last CR. -/
theorem messages_writeAll (hlf : ∀ l ∈ lines, lf ∉ l)
    (hcr : ∀ l ∈ lines, cr ∉ (normalizeLine l format).dropLast) :
    messages (writeAll format lines) = lines.map fun l => trimCR (normalizeLine l format) := by
  have hts : ∀ t ∈ lines.map (normalizeLine · format), lf ∉ t ∧ cr ∉ t.dropLast := by
    intro t ht
    obtain ⟨l, hl, rfl⟩ := List.mem_map.mp ht
    exact ⟨fun hm => hlf l hl ((normalizeLine_sublist l format).subset hm), hcr l hl⟩
  have hwrite : writeAll format lines = (lines.map (normalizeLine · format)).flatMap writeLine := by
    rw [writeAll, List.flatMap_map]
  have hev : events (writeAll format lines) =
      lines.map fun l => ⟨messageType, trimCR (normalizeLine l format), []⟩ := by
    rw [hwrite, events, foldl_writeAll rfl rfl _ hts, List.map_map]
    rfl
  rw [messages, hev, List.filter_eq_self.mpr ?_, List.map_map]
  · rfl
  · intro m hm
    obtain ⟨l, _, rfl⟩ := List.mem_map.mp hm
    exact decide_eq_true rfl

/-- A line that a message shows has a CR at most at its end: no message holds one. -/
theorem not_mem_dropLast_of_shows {t d : Str} (h : Shows t d) (hd : cr ∉ d) : cr ∉ t.dropLast := by
  rcases h with rfl | rfl
  · exact fun hm => hd (List.dropLast_subset _ hm)
  · rwa [List.dropLast_concat]

theorem not_mem_dropLast_of_forall₂ {ts ds : List Str} (h : List.Forall₂ Shows ts ds)
    (hd : ∀ d ∈ ds, cr ∉ d) : ∀ t ∈ ts, cr ∉ t.dropLast := by
  induction h with
  | nil => exact fun t ht => absurd ht List.not_mem_nil
  | cons hs _ ih =>
      intro t ht
      rcases List.mem_cons.mp ht with rfl | ht
      · exact not_mem_dropLast_of_shows hs (hd _ List.mem_cons_self)
      · exact ih (fun d hm => hd d (List.mem_cons_of_mem _ hm)) t ht

/-- **When log lines survive the stream**: exactly if no normalized line holds a CR before its
    last character. -/
theorem log_lines_survive_iff (format : Str) (lines : List Str) (hlf : ∀ l ∈ lines, lf ∉ l) :
    LinesSurvive format lines ↔ ∀ l ∈ lines, cr ∉ (normalizeLine l format).dropLast := by
  constructor
  · intro h l hl
    refine not_mem_dropLast_of_forall₂ h (fun d hd => ?_) _ (List.mem_map_of_mem hl)
    obtain ⟨m, hm, rfl⟩ := List.mem_map.mp hd
    exact not_mem_data (List.mem_of_mem_filter hm)
  · intro h
    rw [LinesSurvive, messages_writeAll hlf h, List.forall₂_map_left_iff,
      List.forall₂_map_right_iff]
    exact List.forall₂_same.mpr fun l _ => shows_trimCR _

/-- A line of a progress bar, and one that ends in a CR. -/
theorem log_lines_survive_iff_progress :
    (∀ l ∈ ["10%\r20%".toList, "ok\r".toList], lf ∉ l) ∧
      (LinesSurvive [] ["10%\r20%".toList, "ok\r".toList] ↔
        ∀ l ∈ ["10%\r20%".toList, "ok\r".toList], cr ∉ (normalizeLine l []).dropLast) :=
  ⟨by decide, log_lines_survive_iff [] _ (by decide)⟩

/-- Of the line `a`, CR, `b` the page shows `a`. -/
theorem log_line_cut_at_cr : ¬ LinesSurvive [] ["a\rb".toList] := by
  intro h
  have hm : messages (writeAll [] ["a\rb".toList]) = ["a".toList] := by decide
  rw [LinesSurvive, hm] at h
  cases h with
  | cons hs _ => exact absurd hs (by decide)

end DevDashboard.Server
