/-
  File:      DevDashboard/Lib/EventStream.lean
  Subject:   EVENT STREAMS, as the HTML standard has a browser read them.

  The text of a stream is cut into lines at CR, LF and CRLF; an unfinished last line is not
  processed. A line is blank (the event collected so far is dispatched), a comment (it starts
  with a colon), or a field with its value. An event without a `data` field is not dispatched,
  and one without an `event` field has the type `message`.

  * `lines_append_lf`, `lines_append_crlf` -- a text without terminators, ended by LF or CRLF,
    is one line;
  * `events_block` -- **one block**: a single `data` field and a blank line dispatch one event
    of the type `message` and leave nothing behind;
  * `not_mem_data` -- **no event carries a CR**.
-/
import DevDashboard.Lib.Url

namespace DevDashboard.Lib.EventStream

/-! ## 1. Lines -/

def cr : Char := '\r'
def lf : Char := '\n'

/-- The finished lines of a text; `acc` is what the current line has so far. -/
def linesFrom : Str → Str → List Str
  | _, [] => []
  | acc, '\r' :: '\n' :: s => acc :: linesFrom [] s
  | acc, c :: s => if c = cr ∨ c = lf then acc :: linesFrom [] s else linesFrom (acc ++ [c]) s

def lines (s : Str) : List Str := linesFrom [] s

/-! ## 2. Fields and events -/

/-- An event as it is dispatched. -/
structure Message where
  type : Str
  data : Str
  lastEventId : Str
  deriving DecidableEq

/-- The buffers of the parser and the events dispatched so far. -/
structure Parser where
  data : Str
  eventType : Str
  lastEventId : Str
  dispatched : List Message

def Parser.fresh : Parser := ⟨[], [], [], []⟩

/-- `message`, the type of an event that names none. -/
def messageType : Str := "message".toList

namespace Parser

/-- The event collected so far is dispatched, if it has a `data` field. -/
def dispatch (p : Parser) : Parser :=
  if p.data = [] then { p with data := [], eventType := [] }
  else
    { p with
      data := []
      eventType := []
      dispatched := p.dispatched ++
        [{ type := if p.eventType = [] then messageType else p.eventType
           data := p.data.dropLast
           lastEventId := p.lastEventId }] }

/-- One field. `retry` and unknown fields change no event. -/
def field (p : Parser) (name value : Str) : Parser :=
  if name = "event".toList then { p with eventType := value }
  else if name = "data".toList then { p with data := p.data ++ value ++ [lf] }
  else if name = "id".toList then
    if '\x00' ∈ value then p else { p with lastEventId := value }
  else p

/-- One line of the stream: a field's value is what follows the first colon, less one space. -/
def line (p : Parser) (l : Str) : Parser :=
  if l = [] then p.dispatch
  else
    let (name, value) := Url.cut ':' l
    if name = [] then p else p.field name (Str.trimPrefix (value.getD []) [' '])

end Parser

/-- The events of a stream. -/
def events (s : Str) : List Message := ((lines s).foldl Parser.line .fresh).dispatched

/-! ## 3. A text and its terminators -/

/-- A text that ends no line. -/
def Unbroken (t : Str) : Prop := cr ∉ t ∧ lf ∉ t

theorem Unbroken.tail {c : Char} {t : Str} (h : Unbroken (c :: t)) :
    (c ≠ cr ∧ c ≠ lf) ∧ Unbroken t := by
  obtain ⟨hc, hl⟩ := h
  rw [List.mem_cons, not_or] at hc hl
  exact ⟨⟨Ne.symm hc.1, Ne.symm hl.1⟩, hc.2, hl.2⟩

/-- A character that ends no line joins the current one. -/
theorem linesFrom_cons {c : Char} (hc : c ≠ cr) (hl : c ≠ lf) (acc s : Str) :
    linesFrom acc (c :: s) = linesFrom (acc ++ [c]) s := by
  rw [linesFrom.eq_3 acc c s fun _ he _ => hc he, if_neg (by simp [hc, hl])]

theorem linesFrom_append {t : Str} (ht : Unbroken t) (acc s : Str) :
    linesFrom acc (t ++ s) = linesFrom (acc ++ t) s := by
  induction t generalizing acc with
  | nil => simp
  | cons c t ih =>
      obtain ⟨⟨hc, hl⟩, ht⟩ := ht.tail
      rw [List.cons_append, linesFrom_cons hc hl, ih ht, List.append_assoc, List.singleton_append]

theorem lines_append_lf {t : Str} (ht : Unbroken t) (s : Str) :
    lines (t ++ lf :: s) = t :: lines s := by
  rw [lines, linesFrom_append ht]
  rfl

theorem lines_append_crlf {t : Str} (ht : Unbroken t) (s : Str) :
    lines (t ++ cr :: lf :: s) = t :: lines s := by
  rw [lines, linesFrom_append ht]
  rfl

/-- No line holds a terminator. -/
theorem unbroken_of_mem_linesFrom {acc s l : Str} (hacc : Unbroken acc)
    (h : l ∈ linesFrom acc s) : Unbroken l := by
  fun_induction linesFrom acc s with
  | case1 => cases h
  | case2 acc s ih =>
      rcases List.mem_cons.mp h with rfl | h
      · exact hacc
      · exact ih ⟨List.not_mem_nil, List.not_mem_nil⟩ h
  | case3 acc c s _ hc ih =>
      rcases List.mem_cons.mp h with rfl | h
      · exact hacc
      · exact ih ⟨List.not_mem_nil, List.not_mem_nil⟩ h
  | case4 acc c s _ hc ih =>
      rw [not_or] at hc
      refine ih ⟨?_, ?_⟩ h
      · simpa [hacc.1] using Ne.symm hc.1
      · simpa [hacc.2] using Ne.symm hc.2

theorem unbroken_of_mem_lines {s l : Str} (h : l ∈ lines s) : Unbroken l :=
  unbroken_of_mem_linesFrom ⟨List.not_mem_nil, List.not_mem_nil⟩ h

/-! ## 4. Events -/

/-- The name of the field that carries the text of an event. -/
def dataName : Str := "data".toList

/-- **One block**: a `data` field and a blank line dispatch one event and leave nothing behind. -/
theorem foldl_block {p : Parser} (hd : p.data = []) (he : p.eventType = []) (v : Str) :
    [dataName ++ [':', ' '] ++ v, []].foldl Parser.line p =
      { p with dispatched := p.dispatched ++ [⟨messageType, v, p.lastEventId⟩] } := by
  have hcut : Url.cut ':' (dataName ++ [':', ' '] ++ v) = (dataName, some (' ' :: v)) := by
    rw [List.append_assoc]
    exact Url.cut_append_cons (by decide) _
  have hline : p.line (dataName ++ [':', ' '] ++ v) = { p with data := v ++ [lf] } := by
    rw [Parser.line, hcut]
    show p.field dataName (Str.trimPrefix ([' '] ++ v) [' ']) = _
    rw [Str.trimPrefix_append]
    show { p with data := p.data ++ v ++ [lf] } = _
    rw [hd, List.nil_append]
  show Parser.line (Parser.line p _) [] = _
  rw [hline, Parser.line, if_pos rfl, Parser.dispatch, if_neg (by simp)]
  simp [hd, he]

/-- No buffer and no event holds a CR. -/
def Parser.NoCR (p : Parser) : Prop := cr ∉ p.data ∧ ∀ m ∈ p.dispatched, cr ∉ m.data

theorem Parser.NoCR.dispatch {p : Parser} (h : p.NoCR) : p.dispatch.NoCR := by
  unfold Parser.dispatch
  split
  · exact ⟨List.not_mem_nil, h.2⟩
  · refine ⟨List.not_mem_nil, fun m hm => ?_⟩
    rcases List.mem_append.mp hm with hm | hm
    · exact h.2 m hm
    · rw [List.mem_singleton.mp hm]
      exact fun hc => h.1 (List.dropLast_subset _ hc)

theorem Parser.NoCR.field {p : Parser} (h : p.NoCR) {name value : Str} (hv : cr ∉ value) :
    (p.field name value).NoCR := by
  unfold Parser.field
  split
  · exact h
  · split
    · refine ⟨?_, h.2⟩
      have hlf : cr ∉ [lf] := by decide
      exact List.not_mem_append (List.not_mem_append h.1 hv) hlf
    · split
      · split <;> exact h
      · exact h

theorem Parser.NoCR.line {p : Parser} (h : p.NoCR) {l : Str} (hl : cr ∉ l) : (p.line l).NoCR := by
  unfold Parser.line
  split
  · exact h.dispatch
  · show (if (Url.cut ':' l).1 = [] then p else _).NoCR
    split
    · exact h
    · -- the value is part of what follows the colon, if there is one
      refine h.field fun hm => ?_
      have hm' := Str.trimPrefix_subset _ _ hm
      by_cases hc : ':' ∈ l
      · obtain ⟨a, b, ha, rfl⟩ := Url.exists_cut hc
        rw [Url.cut_append_cons ha, Option.getD_some] at hm'
        exact hl (List.mem_append_right _ (List.mem_cons_of_mem _ hm'))
      · rw [Url.cut_of_not_mem hc] at hm'
        exact absurd hm' List.not_mem_nil

/-- **No event carries a CR.** -/
theorem not_mem_data {s : Str} {m : Message} (h : m ∈ events s) : cr ∉ m.data := by
  have hfold : ∀ (ls : List Str) (p : Parser), p.NoCR → (∀ l ∈ ls, Unbroken l) →
      (ls.foldl Parser.line p).NoCR := by
    intro ls
    induction ls with
    | nil => exact fun p hp _ => hp
    | cons l ls ih =>
        intro p hp hls
        have hl := hls l List.mem_cons_self
        exact ih _ (hp.line hl.1) fun l' hm => hls l' (List.mem_cons_of_mem _ hm)
  have hfresh : Parser.fresh.NoCR := ⟨List.not_mem_nil, fun m hm => absurd hm List.not_mem_nil⟩
  exact (hfold _ _ hfresh fun l hl => unbroken_of_mem_lines hl).2 m h

end DevDashboard.Lib.EventStream
