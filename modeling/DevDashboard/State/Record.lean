/-
  File:      DevDashboard/State/Record.lean
  Subject:   ONE RECORD, SHOWN (`pkg/state/value.go`, `Record` of `pkg/state/service.go`).

  A stored value is shown as text or in base64, and cut at a limit. The cut is made in the bytes
  of the rendered text and taken back until they are UTF-8 again.

  * `backOff_prefix`, `backOff_valid`, `length_le_backOff` -- taking a cut back gives the longest
    prefix that is UTF-8;
  * `record_faithful` -- what is shown decodes to the longest prefix that fits.
-/
import DevDashboard.State.Service

namespace DevDashboard.State

open Lib StateStore
open Url (Octets utf8)

/-! ## 1. Cutting a value -/

/-- `utf8.Valid`: the bytes are those of their runes. -/
def validUtf8 (b : Octets) : Bool := decide (utf8 (runes b) = b)

def maxValueBytes : Nat := 2 ^ 20

/-- The loop of `truncateValue`. -/
def backOff (s : Octets) : Octets :=
  if _h : s ≠ [] ∧ validUtf8 s = false then backOff s.dropLast else s
  termination_by s.length
  decreasing_by
    have := List.length_pos_iff.mpr _h.1
    simp only [List.length_dropLast]
    omega

/-- `truncateValue`. -/
def truncateValue (s : Octets) : Octets × Bool :=
  if s.length ≤ maxValueBytes then (s, false) else (backOff (s.take maxValueBytes), true)

/-- `Record` of the service's types: a record as it is shown. -/
structure ShownRecord where
  key : Str
  appID : Str
  logicalKey : Str
  kind : Kind
  value : Octets
  encoding : Encoding
  size : Nat
  truncated : Bool
  etag : Str
  ttlExpiresAt : Option Workflow.Time
  contentType : Str

/-- The fields of `Record` for the record that was read. -/
def showRecord (r : Record) : ShownRecord :=
  let p := classify r.key
  let (rendered, enc) := renderValue r.value
  let (value, cut) := truncateValue (utf8 rendered)
  { key := r.key, appID := p.appID, logicalKey := p.logicalKey, kind := p.kind, value,
    encoding := enc, size := r.value.length, truncated := cut, etag := r.etag,
    ttlExpiresAt := r.ttlExpire, contentType := r.contentType }

/-- `service.Record`. -/
def Service.record (svc : Service) (key : Str) : Except StateError ShownRecord := do
  let (_, records) ← svc.ready
  match ← records [key] with
  | [] => throw .notFound
  | r :: _ => return showRecord r

/-! ## 2. Taking a cut back -/

theorem validUtf8_iff {b : Octets} : validUtf8 b = true ↔ ∃ text, b = utf8 text := by
  rw [validUtf8, decide_eq_true_eq]
  constructor
  · exact fun h => ⟨runes b, h.symm⟩
  · rintro ⟨text, rfl⟩
    rw [runes_utf8]

theorem validUtf8_utf8 (text : Str) : validUtf8 (utf8 text) = true :=
  validUtf8_iff.mpr ⟨text, rfl⟩

theorem backOff_of_valid {s : Octets} (h : validUtf8 s = true) : backOff s = s := by
  rw [backOff, dif_neg]
  simp [h]

theorem backOff_prefix (s : Octets) : backOff s <+: s := by
  fun_induction backOff s with
  | case1 s h ih => exact ih.trans (List.dropLast_prefix s)
  | case2 s h => exact List.prefix_rfl

theorem backOff_valid (s : Octets) : validUtf8 (backOff s) = true := by
  fun_induction backOff s with
  | case1 s h ih => exact ih
  | case2 s h =>
      by_cases hs : s = []
      · subst hs
        exact validUtf8_utf8 []
      · simpa [hs] using h

/-- **No prefix that is UTF-8 is longer than what is left.** -/
theorem length_le_backOff {s p : Octets} (hp : p <+: s) (hv : validUtf8 p = true) :
    p.length ≤ (backOff s).length := by
  fun_induction backOff s with
  | case1 s h ih =>
      refine ih ?_
      -- `p` is not all of `s`, which is not UTF-8
      obtain ⟨t, rfl⟩ := hp
      cases t using List.reverseRecOn with
      | nil =>
          rw [List.append_nil, hv] at h
          cases h.2
      | append_singleton t c =>
          rw [← List.append_assoc, List.dropLast_concat]
          exact List.prefix_append p t
  | case2 s h => exact hp.length_le

/-! ## 3. ASCII -/

/-- Text in ASCII has one byte for each character. -/
theorem utf8_of_ascii {s : Str} (h : ∀ c ∈ s, c.toNat < 0x80) :
    utf8 s = s.map fun c => UInt8.ofNat c.toNat := by
  induction s with
  | nil => rfl
  | cons c s ih =>
      obtain ⟨hc, hs⟩ := List.forall_mem_cons.mp h
      have hv : c.val.toNat = c.toNat := rfl
      have hone : String.utf8EncodeChar c = [UInt8.ofNat c.toNat] := by
        unfold String.utf8EncodeChar
        dsimp only
        rw [if_pos (by omega)]
        rfl
      rw [utf8_cons, hone, ih hs]
      rfl

/-! ## 4. What a shown record says -/

/-- The bytes a shown value stands for. -/
def decodeShown : Encoding → Octets → Option Octets
  | .text, v => some v
  | .base64, v => Base64.decodeStd (runes v)

/-- The bytes of the rendered text of a value. -/
def rendered : Encoding → Octets → Octets
  | .text, p => p
  | .base64, p => utf8 (Base64.encode p)

/-- The places where a value may be cut: behind a rune, behind three bytes that make a quantum, or
    at the end. -/
def Boundary : Encoding → Octets → Octets → Prop
  | .text, stored, p => p <+: stored ∧ validUtf8 p = true
  | .base64, stored, p => p <+: stored ∧ (3 ∣ p.length ∨ p = stored)

/-- A value as it is shown: UTF-8, within the limit, and decoding to the longest prefix of the
    stored bytes that may be cut there and fits; all of them exactly if nothing was cut. -/
structure Faithful (stored : Octets) (shown : ShownRecord) : Prop where
  utf8 : ∃ text, shown.value = utf8 text
  fits : shown.value.length ≤ maxValueBytes
  decodes : ∃ p, decodeShown shown.encoding shown.value = some p ∧
    rendered shown.encoding p = shown.value ∧ Boundary shown.encoding stored p ∧
    (shown.truncated = false ↔ p = stored) ∧
    ∀ p', Boundary shown.encoding stored p' →
      (rendered shown.encoding p').length ≤ maxValueBytes → p'.length ≤ p.length

/-- A value that is UTF-8 is cut behind a rune. -/
theorem faithful_text {r : Record} (h : validUtf8 r.value = true) :
    Faithful r.value (showRecord r) := by
  have henc : renderValue r.value = (runes r.value, .text) := by
    rw [renderValue, if_pos (of_decide_eq_true h)]
  have hback : utf8 (runes r.value) = r.value := of_decide_eq_true h
  unfold showRecord
  simp only [henc, hback, truncateValue]
  by_cases hlen : r.value.length ≤ maxValueBytes
  · simp only [hlen, if_true]
    exact ⟨⟨_, hback.symm⟩, hlen, r.value, rfl, rfl, ⟨List.prefix_rfl, h⟩, by simp,
      fun p' hp' _ => hp'.1.length_le⟩
  · simp only [hlen, if_false]
    have hpre := backOff_prefix (r.value.take maxValueBytes)
    have hfit : (backOff (r.value.take maxValueBytes)).length ≤ maxValueBytes :=
      hpre.length_le.trans (List.length_take_le _ _)
    refine ⟨validUtf8_iff.mp (backOff_valid _), hfit, _, rfl, rfl,
      ⟨hpre.trans (List.take_prefix _ _), backOff_valid _⟩, ?_, fun p' hp' hl => ?_⟩
    · refine ⟨fun hf => by simp at hf, fun he => absurd ?_ hlen⟩
      have he' : backOff (r.value.take maxValueBytes) = r.value := he
      rw [he'] at hfit
      exact hfit
    · -- a prefix that fits is one of the bytes that were looked at
      refine length_le_backOff (List.prefix_of_prefix_length_le hp'.1 (List.take_prefix _ _) ?_)
        hp'.2
      have hp'len := hp'.1.length_le
      simp only [rendered] at hl
      rw [List.length_take]
      omega

/-- A value that is no UTF-8 is cut behind a quantum. -/
theorem faithful_base64 {r : Record} (h : validUtf8 r.value = false) :
    Faithful r.value (showRecord r) := by
  have henc : renderValue r.value = (Base64.encode r.value, .base64) := by
    rw [renderValue, if_neg (of_decide_eq_false h)]
  have hascii : ∀ b, utf8 (Base64.encode b) = (Base64.encode b).map fun c => UInt8.ofNat c.toNat :=
    fun b => utf8_of_ascii fun c hc => (Base64.plain_of_mem_encode hc).2.2
  have hlength : ∀ b, (utf8 (Base64.encode b)).length = (b.length + 2) / 3 * 4 := fun b => by
    rw [hascii, List.length_map, Base64.length_encode]
  have hdecode : ∀ b, decodeShown .base64 (utf8 (Base64.encode b)) = some b := fun b => by
    rw [decodeShown, runes_utf8, Base64.decodeStd_encode]
  unfold showRecord
  simp only [henc, truncateValue]
  by_cases hlen : (utf8 (Base64.encode r.value)).length ≤ maxValueBytes
  · simp only [hlen, if_true]
    exact ⟨⟨_, rfl⟩, hlen, r.value, hdecode _, rfl,
      ⟨List.prefix_rfl, .inr rfl⟩, by simp, fun p' hp' _ => hp'.1.length_le⟩
  · simp only [hlen, if_false]
    have hlong : maxValueBytes < (r.value.length + 2) / 3 * 4 := hlength r.value ▸ not_le.mp hlen
    have hmax : maxValueBytes = 4 * 2 ^ 18 := by decide
    have hbytes : 3 * 2 ^ 18 < r.value.length := by omega
    -- the limit is a number of quanta
    have hcut : backOff ((utf8 (Base64.encode r.value)).take maxValueBytes) =
        utf8 (Base64.encode (r.value.take (3 * 2 ^ 18))) := by
      rw [hascii r.value, hmax, ← List.map_take, Base64.encode_take hbytes.le, ← hascii,
        backOff_of_valid (validUtf8_utf8 _)]
    have htake : (r.value.take (3 * 2 ^ 18)).length = 3 * 2 ^ 18 := by
      rw [List.length_take]
      omega
    rw [hcut]
    refine ⟨⟨_, rfl⟩, ?_, _, hdecode _, rfl,
      ⟨List.take_prefix _ _, .inl ?_⟩, ⟨fun hf => by simp at hf, fun he => ?_⟩, fun p' hp' hl => ?_⟩
    · rw [hlength, htake, hmax]
      omega
    · rw [htake]
      exact dvd_mul_right _ _
    · rw [he] at htake
      omega
    · rw [rendered, hlength, hmax] at hl
      rw [htake]
      omega

/-- **What `Record` shows is faithful.** For every stored value, the record that is read is shown
    with a value that is UTF-8, fits the limit, and decodes to the longest prefix of the stored
    bytes that may be cut and fits: all of them exactly if nothing was cut. -/
theorem record_faithful {svc : Service} {s : Store}
    {records : List Str → Except StateError (List Record)} {key : Str} {r : Record}
    {rest : List Record} (hready : svc.ready = .ok (s, records))
    (hread : records [key] = .ok (r :: rest)) :
    ∃ shown, svc.record key = .ok shown ∧ shown.size = r.value.length ∧
      Faithful r.value shown := by
  refine ⟨showRecord r, ?_, rfl, ?_⟩
  · simp only [Service.record, hready, bind, Except.bind, hread, pure, Except.pure]
  · cases h : validUtf8 r.value with
    | true => exact faithful_text h
    | false => exact faithful_base64 h

/-- A store with one record, two bytes that are no UTF-8. -/
def blobStore : Store where
  keys _ _ _ := .ok ([], [])
  records := some fun _ => .ok [{ key := "k".toList, value := [0xff, 0xfe] }]
  get _ := .ok none
  set _ _ := .ok ()

theorem record_faithful_blob :
    ∃ shown, (Service.mk (some blobStore)).record "k".toList = .ok shown ∧ shown.size = 2 ∧
      Faithful [0xff, 0xfe] shown :=
  record_faithful (s := blobStore) (r := { key := "k".toList, value := [0xff, 0xfe] }) rfl rfl

end DevDashboard.State
