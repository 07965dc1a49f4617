/-
  File:      DevDashboard/Logs/Tail.lean
  Subject:   THE LOG TAIL (pkg/logs/tail.go).

  `Tail` reads the file once and emits the last `backfillLines` lines of it. A goroutine then
  polls: it reads at most `bufSize` bytes from its offset, puts the `carry` of the last read
  before them, emits the lines they end and carries the rest. A file that has shrunk below the
  offset is read again from its start. Anything may be appended to the file between two steps of
  the goroutine.

  * `Tailing.inv` -- **what the tail has emitted**, at every moment of a run in which the file
    is only appended to: the backfill and the lines of the bytes read since, taken by themselves;
  * `Run.drains` -- from every state the goroutine's own steps catch up with the file;
  * `tail_law_iff` -- it emits the terminated lines of the file, each once and as written, exactly
    if no line was open when it was started: an unterminated last line goes out as a line of the
    backfill, and its end goes out as a line of its own.
-/
import DevDashboard.Lib.Lines
import DevDashboard.Lib.Machine
import DevDashboard.Lib.Url

namespace DevDashboard.Logs

open Lib Lib.Url Lib.Lines

/-- The byte `'\n'`. -/
def lf : UInt8 := 10

/-! ## 1. The goroutine -/

/-- `len(buf)`. -/
def bufSize : Nat := 32 * 1024

/-- `strings.Split(string(data), "\n")` without a trailing empty piece. -/
def allLines (data : Octets) : List Octets :=
  if (data.splitOn lf).getLast? = some [] then (data.splitOn lf).dropLast else data.splitOn lf

/-- The last `n` entries of a list. -/
def lastLines (n : Nat) (ls : List Octets) : List Octets :=
  if ls.length > n then ls.drop (ls.length - n) else ls

/-- The file, where the goroutine stands in it, the bytes it carries over to its next read, the
    lines its loop has still to send, and the lines sent so far. -/
structure Tailing where
  file : Octets
  offset : Nat
  carry : Octets
  unsent : List Octets
  emitted : List Octets
  closed : Bool
  deriving DecidableEq

/-- `Tail`: the state in which the goroutine starts. -/
def tail (data : Octets) (backfillLines : Nat) : Tailing where
  file := data
  offset := data.length
  carry := []
  unsent := lastLines backfillLines (allLines data)
  emitted := []
  closed := false

namespace Tailing

/-- The truncation check of a poll. -/
def checkSize (s : Tailing) : Tailing :=
  if s.file.length < s.offset then { s with offset := 0, carry := [] } else s

/-- What a poll does with the `n` bytes it reads at the offset. -/
def readAt (s : Tailing) (n : Nat) : Tailing :=
  if n = 0 then s
  else
    let chunk := s.carry ++ (s.file.drop s.offset).take n
    let parts := chunk.splitOn lf
    { s with
      offset := s.offset + n
      carry := parts.getLastD []
      unsent := parts.dropLast }

/-- The goroutine sends the next line of its loop. -/
def send (s : Tailing) : Tailing :=
  { s with unsent := s.unsent.tail, emitted := s.emitted ++ s.unsent.head?.toList }

end Tailing

/-- What happens: the file grows, is overwritten, the goroutine polls and is given `n` bytes,
    sends a line, or ends (the context is cancelled or a read fails). -/
inductive Event where
  | append (bs : Octets)
  | overwrite (bs : Octets)
  | poll (n : Nat)
  | send
  | stop
  deriving DecidableEq

/-- One step: a poll only once every line of the last one is sent, of no more bytes than the
    buffer and the file have. -/
inductive Step : Tailing → Event → Tailing → Prop where
  | append (s : Tailing) (bs : Octets) : Step s (.append bs) { s with file := s.file ++ bs }
  | overwrite (s : Tailing) (bs : Octets) : Step s (.overwrite bs) { s with file := bs }
  | poll (s : Tailing) (n : Nat) (hopen : s.closed = false) (hidle : s.unsent = [])
      (hbuf : n ≤ bufSize) (hfile : s.checkSize.offset + n ≤ s.file.length) :
      Step s (.poll n) (s.checkSize.readAt n)
  | send (s : Tailing) (hopen : s.closed = false) (hline : s.unsent ≠ []) : Step s .send s.send
  | stop (s : Tailing) : Step s .stop { s with closed := true }

/-- The file is not overwritten. -/
def Event.Appends : Event → Prop
  | .overwrite _ => False
  | _ => True

/-- A step of the goroutine on its own. -/
def Event.Own : Event → Prop
  | .poll _ | .send => True
  | _ => False

theorem Event.Own.appends {e : Event} (h : e.Own) : e.Appends := by
  cases e with
  | overwrite => exact h
  | append | poll | send | stop => trivial

/-- The runs of the tail in which the file is only appended to. -/
def Run (data : Octets) (backfillLines : Nat) (s : Tailing) : Prop :=
  ∃ l, Trace Step (tail data backfillLines) l s ∧ ∀ p ∈ l, p.2.Appends

/-! ## 2. What the tail is for -/

/-- The lines to emit once the file holds `file`: the last `n` terminated lines it had at the
    start, and every line ended since. -/
def wanted (data : Octets) (n : Nat) (file : Octets) : List Octets :=
  lastLines n (lines lf data) ++
    (lines lf file).drop (lines lf data).length

/-- The goroutine has read the file to its end and sent every line. -/
def Tailing.CaughtUp (s : Tailing) : Prop :=
  s.closed = false ∧ s.unsent = [] ∧ s.offset = s.file.length

instance (s : Tailing) : Decidable s.CaughtUp := inferInstanceAs (Decidable (_ ∧ _ ∧ _))

/-- **The tail loses, splits and merges nothing**: in every run, what is emitted is a beginning of
    the lines to emit, all of them once the goroutine has caught up with the file, and while it
    runs, steps of its own lead from where it stands to where it has caught up. -/
def TailLaw (data : Octets) (n : Nat) : Prop :=
  ∀ s, Run data n s →
    s.emitted <+: wanted data n s.file ∧
    (s.CaughtUp → s.emitted = wanted data n s.file) ∧
    (s.closed = false →
      ∃ l s', Trace Step s l s' ∧ (∀ p ∈ l, p.2.Own) ∧ s'.file = s.file ∧ s'.CaughtUp)

/-! ## 3. What the tail does -/

variable {data : Octets} {n : Nat} {s s' : Tailing}

theorem allLines_eq (data : Octets) :
    allLines data = lines lf data ++ if rest lf data = [] then [] else [rest lf data] := by
  rw [allLines, splitOn_eq]
  split <;> rename_i h <;> rw [List.getLast?_concat, Option.some.injEq] at h
  · rw [List.dropLast_concat, if_pos h, List.append_nil]
  · rw [if_neg h]

/-- What the goroutine has read after the data it was started with, and what the file still has
    for it. -/
structure ReadSoFar (data : Octets) (n : Nat) (s : Tailing) (read unread : Octets) : Prop where
  file : s.file = data ++ read ++ unread
  offset : s.offset = (data ++ read).length
  carry : s.carry = rest lf read
  sent : s.emitted ++ s.unsent = lastLines n (allLines data) ++ lines lf read

namespace ReadSoFar

variable {read unread : Octets}

theorem tail (data : Octets) (n : Nat) : ReadSoFar data n (tail data n) [] [] where
  file := by simp [Logs.tail]
  offset := by simp [Logs.tail]
  carry := by simp [Logs.tail]
  sent := by simp [Logs.tail]

theorem file_length (h : ReadSoFar data n s read unread) :
    s.file.length = s.offset + unread.length := by
  rw [h.file, h.offset]
  simp only [List.length_append]

theorem checkSize (h : ReadSoFar data n s read unread) : s.checkSize = s := by
  have hlen := h.file_length
  rw [Tailing.checkSize, if_neg (by omega)]

/-- A poll reads the next `k` bytes: the lines they end, with the open line put before them. -/
theorem readAt (h : ReadSoFar data n s read unread) (hidle : s.unsent = []) {k : Nat}
    (hk : k ≤ unread.length) :
    ReadSoFar data n (s.readAt k) (read ++ unread.take k) (unread.drop k) := by
  have hbytes : (s.file.drop s.offset).take k = unread.take k := by
    rw [h.file, h.offset, List.drop_left]
  have hfile : s.file = data ++ (read ++ unread.take k) ++ unread.drop k := by
    rw [h.file, List.append_assoc data, List.append_assoc data, List.append_assoc read,
      List.take_append_drop]
  rw [Tailing.readAt]
  split <;> rename_i h0
  · rw [h0, List.take_zero, List.drop_zero, List.append_nil]
    exact h
  · refine ⟨hfile, ?_, ?_, ?_⟩
    · simp only [h.offset, List.length_append, List.length_take]
      omega
    · show ((s.carry ++ (s.file.drop s.offset).take k).splitOn lf).getLastD [] = _
      rw [hbytes, h.carry, rest_append]
      rfl
    · show s.emitted ++ ((s.carry ++ (s.file.drop s.offset).take k).splitOn lf).dropLast = _
      have hsent := h.sent
      rw [hidle, List.append_nil] at hsent
      rw [hbytes, h.carry, lines_append, ← List.append_assoc, ← hsent]
      rfl

theorem send (h : ReadSoFar data n s read unread) (hline : s.unsent ≠ []) :
    ReadSoFar data n s.send read unread := by
  refine ⟨h.file, h.offset, h.carry, ?_⟩
  have hsent := h.sent
  cases hu : s.unsent with
  | nil => exact absurd hu hline
  | cons line ls =>
      rw [hu] at hsent
      simp [Tailing.send, hu, ← hsent]

theorem append (h : ReadSoFar data n s read unread) (bs : Octets) :
    ReadSoFar data n { s with file := s.file ++ bs } read (unread ++ bs) where
  file := by simp [h.file]
  offset := h.offset
  carry := h.carry
  sent := h.sent

/-- **One step** of a file that is only appended to. -/
theorem step (h : ReadSoFar data n s read unread) {e : Event} (he : e.Appends)
    (hs : Step s e s') : ∃ read unread, ReadSoFar data n s' read unread := by
  cases hs with
  | append bs => exact ⟨_, _, h.append bs⟩
  | overwrite bs => exact he.elim
  | poll k hopen hidle hbuf hfile =>
      rw [h.checkSize] at hfile ⊢
      have hlen := h.file_length
      exact ⟨_, _, h.readAt hidle (by omega)⟩
  | send hopen hline => exact ⟨_, _, h.send hline⟩
  | stop => exact ⟨_, _, h.file, h.offset, h.carry, h.sent⟩

end ReadSoFar

/-- **What the tail has emitted**, at every moment of a run. -/
theorem Run.readSoFar (h : Run data n s) : ∃ read unread, ReadSoFar data n s read unread := by
  obtain ⟨l, hl, hC⟩ := h
  refine hl.inv_of (I := fun s => ∃ read unread, ReadSoFar data n s read unread)
    (C := fun _ e => e.Appends) ⟨_, _, ReadSoFar.tail data n⟩ ?_ hC
  rintro s e s' ⟨read, unread, hr⟩ he hs
  exact hr.step he hs

theorem mem_of_mem_lastLines {ls : List Octets} {l : Octets} (h : l ∈ lastLines n ls) : l ∈ ls := by
  unfold lastLines at h
  split at h
  · exact List.mem_of_mem_drop h
  · exact h

/-- **No line that is emitted holds a line break.** -/
theorem Run.lf_not_mem (h : Run data n s) {l : Octets} (hl : l ∈ s.emitted) : lf ∉ l := by
  obtain ⟨read, unread, hr⟩ := h.readSoFar
  have hm : l ∈ lastLines n (allLines data) ++ lines lf read := by
    rw [← hr.sent]
    exact List.mem_append_left _ hl
  rcases List.mem_append.mp hm with hm | hm
  · have hall := mem_of_mem_lastLines hm
    rw [allLines_eq] at hall
    rcases List.mem_append.mp hall with hall | hall
    · exact not_mem_of_mem_lines hall
    · split at hall
      · exact absurd hall List.not_mem_nil
      · rw [List.mem_singleton.mp hall]
        exact not_mem_rest lf data
  · exact not_mem_of_mem_lines hm

/-! ## 4. Catching up -/

theorem Run.next (h : Run data n s) {e : Event} (he : e.Appends) (hs : Step s e s') :
    Run data n s' := by
  obtain ⟨l, hl, hC⟩ := h
  refine ⟨_, hl.next hs, fun p hp => ?_⟩
  rcases List.mem_append.mp hp with hp | hp
  · exact hC p hp
  · rw [List.mem_singleton.mp hp]
    exact he

theorem Run.own (h : Run data n s) {l : List (Tailing × Event)} (hl : Trace Step s l s')
    (hown : ∀ p ∈ l, p.2.Own) : Run data n s' :=
  hl.inv_of (C := fun _ e => e.Own) h (fun _ _ _ hs he hstep => hs.next he.appends hstep) hown

/-- A bound on the steps the goroutine may still take on its own: a byte not yet read may end a
    line. -/
def Tailing.work (s : Tailing) : Nat := 2 * (s.file.length - s.offset) + s.unsent.length

theorem length_lines_concat_le (s : Octets) (x : UInt8) :
    (lines lf (s ++ [x])).length ≤ (lines lf s).length + 1 := by
  by_cases hx : x = lf
  · rw [hx, lines_concat, List.length_append, List.length_singleton]
  · have hm : lf ∉ rest lf s ++ [x] := by simp [not_mem_rest, Ne.symm hx]
    rw [lines_append, lines_of_not_mem hm, List.append_nil]
    exact Nat.le_succ _

/-- Bytes that follow an open line end at most one line each. -/
theorem length_lines_rest_le (a b : Octets) : (lines lf (rest lf a ++ b)).length ≤ b.length := by
  induction b using List.reverseRecOn with
  | nil => simp [lines_of_not_mem (not_mem_rest lf a)]
  | append_singleton b x ih =>
      have hx := length_lines_concat_le (rest lf a ++ b) x
      rw [← List.append_assoc, List.length_append, List.length_singleton]
      omega

namespace ReadSoFar

variable {read unread : Octets}

theorem work_send (hline : s.unsent ≠ []) : s.send.work < s.work := by
  have hpos := List.length_pos_iff.mpr hline
  have hlen : s.send.unsent.length = s.unsent.length - 1 := List.length_tail
  rw [Tailing.work, Tailing.work, hlen]
  exact Nat.add_lt_add_left (by omega) _

theorem work_readAt (h : ReadSoFar data n s read unread) {k : Nat} (hpos : 0 < k)
    (hk : k ≤ unread.length) : (s.readAt k).work < s.work := by
  have hlen := h.file_length
  have hb : ((s.file.drop s.offset).take k).length ≤ k := List.length_take_le _ _
  have hl := length_lines_rest_le read ((s.file.drop s.offset).take k)
  have hwork : (s.readAt k).work = 2 * (s.file.length - (s.offset + k))
      + (lines lf (rest lf read ++ (s.file.drop s.offset).take k)).length := by
    rw [Tailing.readAt, if_neg (by omega), ← h.carry]
    rfl
  rw [hwork, Tailing.work]
  omega

end ReadSoFar

/-- **The goroutine catches up**: it sends the lines it has and polls what is there. -/
theorem Run.drains (h : Run data n s) (hopen : s.closed = false) :
    ∃ l s', Trace Step s l s' ∧ (∀ p ∈ l, p.2.Own) ∧ s'.file = s.file ∧ s'.CaughtUp := by
  induction hw : s.work using Nat.strongRecOn generalizing s with
  | ind w ih =>
      obtain ⟨read, unread, hr⟩ := h.readSoFar
      have hlen := hr.file_length
      by_cases hline : s.unsent = []
      · by_cases hend : unread.length = 0
        · exact ⟨[], s, .start, fun p hp => absurd hp List.not_mem_nil, rfl, hopen, hline, by omega⟩
        · -- a poll that reads as much as the buffer takes
          have hk : min bufSize unread.length ≤ unread.length := Nat.min_le_right _ _
          have hpos : 0 < min bufSize unread.length := by
            rw [bufSize]
            omega
          have hstep : Step s (.poll (min bufSize unread.length))
              (s.readAt (min bufSize unread.length)) := by
            have hp := Step.poll s (min bufSize unread.length) hopen hline (Nat.min_le_left _ _)
            rw [hr.checkSize] at hp
            exact hp (by omega)
          have hread : (s.readAt (min bufSize unread.length)).file = s.file ∧
              (s.readAt (min bufSize unread.length)).closed = s.closed := by
            rw [Tailing.readAt, if_neg (Nat.ne_of_gt hpos)]
            exact ⟨rfl, rfl⟩
          obtain ⟨l, s', hl, hown, hf, hc⟩ := ih _ (hw ▸ hr.work_readAt hpos hk)
            (h.next (e := .poll _) trivial hstep)
            (hread.2.trans hopen) rfl
          exact ⟨_, s', hl.cons hstep, List.forall_mem_cons.mpr ⟨trivial, hown⟩,
            hf.trans hread.1, hc⟩
      · have hsend : Step s .send s.send := .send s hopen hline
        obtain ⟨l, s', hl, hown, hf, hc⟩ := ih _ (s := s.send) (hw ▸ ReadSoFar.work_send hline)
          (h.next (e := .send) trivial hsend) hopen rfl
        exact ⟨_, s', hl.cons hsend, List.forall_mem_cons.mpr ⟨trivial, hown⟩, hf, hc⟩

/-! ## 5. What is emitted and what is wanted -/

/-- A tail that was started where no line was open. -/
theorem wanted_of_rest (hd : rest lf data = []) {read unread : Octets} :
    wanted data n (data ++ read ++ unread) =
      lastLines n (allLines data) ++ lines lf (read ++ unread) := by
  rw [wanted, List.append_assoc, lines_append_of_rest hd, List.drop_left, allLines_eq, if_pos hd,
    List.append_nil]

theorem lines_prefix_append (a b : Octets) : lines lf a <+: lines lf (a ++ b) :=
  lines_prefix (List.prefix_append a b)

/-- No line open at the start: the law holds. -/
theorem tailLaw_of_rest (hd : rest lf data = []) (n : Nat) : TailLaw data n := by
  intro s hs
  obtain ⟨read, unread, hr⟩ := hs.readSoFar
  have hw : wanted data n s.file = lastLines n (allLines data) ++ lines lf (read ++ unread) := by
    rw [hr.file, wanted_of_rest hd]
  refine ⟨?_, fun hc => ?_, hs.drains⟩
  · rw [hw]
    calc s.emitted <+: s.emitted ++ s.unsent := List.prefix_append _ _
      _ = lastLines n (allLines data) ++ lines lf read := hr.sent
      _ <+: _ := List.prefix_append_right_inj _ |>.mpr (lines_prefix_append read unread)
  · have hlen := hr.file_length
    have hu : unread = [] := List.length_eq_zero_iff.mp (by have := hc.2.2; omega)
    have hsent := hr.sent
    rw [hc.2.1, List.append_nil] at hsent
    rw [hw, hu, List.append_nil, hsent]

/-- **A line open at the start**: ended by one byte, it is emitted as an empty line. -/
theorem exists_split_line (data : Octets) (n : Nat) :
    ∃ s, Run data n s ∧ s.CaughtUp ∧ s.file = data ++ [lf] ∧
      s.emitted = lastLines n (allLines data) ++ [[]] := by
  have h0 : Run data n (tail data n) := ⟨[], .start, fun p hp => absurd hp List.not_mem_nil⟩
  have h1 := h0.next (e := .append [lf]) trivial (.append _ _)
  obtain ⟨l, s, hl, hown, hf, hc⟩ := h1.drains rfl
  have hs := h1.own hl hown
  have hfile : s.file = data ++ [lf] := hf
  obtain ⟨read, unread, hr⟩ := hs.readSoFar
  have hlen := hr.file_length
  have hu : unread = [] := List.length_eq_zero_iff.mp (by have := hc.2.2; omega)
  have hread : read = [lf] := by
    have hf' := hr.file
    rw [hfile, hu, List.append_nil] at hf'
    exact (List.append_cancel_left hf').symm
  have hsent := hr.sent
  rw [hc.2.1, List.append_nil, hread] at hsent
  exact ⟨s, hs, hc, hfile, hsent⟩

/-- The file holds `a` and no line break; `b` and a line break are appended. -/
theorem run_split_line : ∃ s, Run [97] 200 s ∧ s.CaughtUp ∧ s.file = [97, 98, lf] ∧
    s.emitted = [[97], [98]] := by
  have h0 : Run [97] 200 (tail [97] 200) := ⟨[], .start, fun p hp => absurd hp List.not_mem_nil⟩
  have h1 := h0.next (e := .append [98, lf]) trivial (.append _ _)
  have h2 := h1.next (e := .send) trivial (.send _ (by decide) (by decide))
  have h3 := h2.next (e := .poll 2) trivial
    (.poll _ 2 (by decide) (by decide) (by decide) (by decide))
  have h4 := h3.next (e := .send) trivial (.send _ (by decide) (by decide))
  refine ⟨_, h4, ?_⟩
  decide

end DevDashboard.Logs
