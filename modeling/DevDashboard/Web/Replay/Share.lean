/-
  File:      DevDashboard/Web/Replay/Share.lean
  Subject:   RUN CODES (runtime/share.ts).

  A run code is the tape's JSON text, deflated, in base64 with the URL alphabet and without its
  padding. The encoder refuses a code longer than `MAX_RUN_CODE`; the decoder refuses such a code
  as well, and a tape whose JSON text is longer than `MAX_TAPE_JSON`.

  The browser's JSON texts and its compression are a parameter (`Platform`).

  * `fromBase64Url_toBase64Url` -- any bytes survive base64url;
  * `decodeRun_of_code` -- **what a code decodes to**: the tape, if its text is short enough;
  * `run_code_decodes_iff` -- a code that was handed out decodes to its tape, with any blanks in
    it, exactly if the tape's JSON text has at most `MAX_TAPE_JSON` bytes.
-/
import DevDashboard.Lib.Base64
import DevDashboard.Lib.Utf8
import DevDashboard.Web.Replay.Validate

namespace DevDashboard.Web.Replay

open Lib
open Lib.Url (Octets utf8)

/-! ## 1. Encoding and decoding -/

/-- `RUN_CODE_PREFIX`. -/
def runCodePrefix : Str := "RPL1.".toList

/-- `MAX_RUN_CODE`. -/
def maxRunCode : Nat := 256 * 1024

/-- `MAX_TAPE_JSON`. -/
def maxTapeJson : Nat := 4 * 1024 * 1024

/-- `JSON.stringify`, `JSON.parse`, `CompressionStream('deflate-raw')` and its inverse; what throws
    is `none`. -/
structure Platform where
  stringify : Json → Str
  parse : Str → Option Json
  deflateRaw : Octets → Octets
  inflateRaw : Octets → Option Octets

/-- Compression and, on tapes, JSON are lossless; the text of an object begins with a brace. -/
structure Platform.Lossless (pf : Platform) : Prop where
  json : ∀ tape, isTape tape = true → pf.parse (pf.stringify tape) = some tape
  brace : ∀ tape, isTape tape = true → (pf.stringify tape).head? = some '{'
  deflate : ∀ bytes, pf.inflateRaw (pf.deflateRaw bytes) = some bytes

/-- `pipe`: the output of a stream, unless it fails or passes the limit. -/
def pipe (out : Option Octets) (limit : Nat) : Option Octets :=
  out.bind fun bytes => if bytes.length > limit then none else some bytes

/-- `.replace(/=+$/, '')`. -/
def trimPadding (s : Str) : Str := (s.reverse.dropWhile (· = '=')).reverse

/-- `toBase64Url`. -/
def toBase64Url (bytes : Octets) : Str :=
  trimPadding (((Base64.encode bytes).map fun c => if c = '+' then '-' else c).map
    fun c => if c = '/' then '_' else c)

/-- `fromBase64Url`. -/
def fromBase64Url (text : Str) : Option Octets :=
  let b64 := (text.map fun c => if c = '-' then '+' else c).map fun c => if c = '_' then '/' else c
  Base64.decode (b64 ++ Base64.padding b64.length)

/-- `encodeRun`. -/
def encodeRun (pf : Platform) (tape : Json) : Str :=
  runCodePrefix ++ toBase64Url (pf.deflateRaw (utf8 (pf.stringify tape)))

/-- The length of a text in UTF-16 units. -/
def jsLength (s : Str) : Nat := (s.map fun c => if c.toNat < 0x10000 then 1 else 2).sum

/-- `shareableRunCode`. -/
def shareableRunCode (pf : Platform) (tape : Json) : Option Str :=
  if jsLength (encodeRun pf tape) > maxRunCode then none else some (encodeRun pf tape)

/-- `\s` of a regular expression of JavaScript. -/
def isJsSpace (c : Char) : Bool :=
  decide (c ∈ ['\t', '\n', '\x0b', '\x0c', '\r', ' ', '\u00a0', '\u1680', '\u2028', '\u2029',
    '\u202f', '\u205f', '\u3000', '\ufeff']) || ('\u2000' ≤ c && c ≤ '\u200a')

/-- `code.replace(/\s+/g, '')`. -/
def withoutSpaces (code : Str) : Str := code.filter fun c => !isJsSpace c

/-- `new TextDecoder().decode`: a byte order mark at the beginning is dropped. -/
def decodeText (bytes : Octets) : Str :=
  if (runes bytes).head? = some '\ufeff' then (runes bytes).tail else runes bytes

/-- `decodeRun`. -/
def decodeRun (pf : Platform) (code : Str) : Option Json :=
  let clean := withoutSpaces code
  if ¬ Str.hasPrefix clean runCodePrefix ∨ jsLength clean > maxRunCode then none
  else do
    let bytes ← fromBase64Url (clean.drop runCodePrefix.length)
    let json ← pipe (pf.inflateRaw bytes) maxTapeJson
    let data ← pf.parse (decodeText json)
    if isTape data then some data else none

/-! ## 2. The alphabet -/

/-- The characters of base64url. -/
def urlDigit (n : Nat) : Char :=
  let c := Base64.digit n
  let c := if c = '+' then '-' else c
  if c = '/' then '_' else c

theorem urlDigit_spec {n : Nat} (h : n < 64) :
    urlDigit n ≠ '=' ∧ isJsSpace (urlDigit n) = false ∧ (urlDigit n).toNat < 0x10000 ∧
      (let c := if urlDigit n = '-' then '+' else urlDigit n
       (if c = '_' then '/' else c) = Base64.digit n) := by
  have hall : ∀ n < 64, urlDigit n ≠ '=' ∧ isJsSpace (urlDigit n) = false ∧
      (urlDigit n).toNat < 0x10000 ∧
      (let c := if urlDigit n = '-' then '+' else urlDigit n
       (if c = '_' then '/' else c) = Base64.digit n) := by decide +kernel
  exact hall n h

theorem trimPadding_append (t : Str) (n : Nat) (h : t.getLast? ≠ some '=') :
    trimPadding (t ++ List.replicate n '=') = t := by
  have hdrop : (List.replicate n '=' ++ t.reverse).dropWhile (· = '=') = t.reverse := by
    rw [List.dropWhile_append_of_pos fun c hc => by simp [List.eq_of_mem_replicate hc]]
    cases ht : t.reverse with
    | nil => rfl
    | cons c u =>
        have hc : c ≠ '=' := by
          rintro rfl
          rw [← List.head?_reverse, ht] at h
          exact h rfl
        simp [hc]
  rw [trimPadding, List.reverse_append, List.reverse_replicate, hdrop, List.reverse_reverse]

/-- **The text of base64url**: a digit for every group of six bits. -/
theorem toBase64Url_eq (bytes : Octets) :
    toBase64Url bytes = (Base64.sextets bytes).map urlDigit := by
  have hpad : ∀ n, ((Base64.padding n).map fun c => if c = '+' then '-' else c).map
      (fun c => if c = '/' then '_' else c) = List.replicate ((4 - n % 4) % 4) '=' := by
    intro n
    rw [Base64.padding, List.map_replicate, List.map_replicate]
    rfl
  have hlast : ((Base64.sextets bytes).map urlDigit).getLast? ≠ some '=' := by
    intro hl
    obtain ⟨n, hn, he⟩ := List.mem_map.mp (List.mem_of_getLast? hl)
    exact (urlDigit_spec (Base64.lt_of_mem_sextets hn)).1 he
  rw [toBase64Url, Base64.encode, List.map_append, List.map_append, hpad, List.map_map,
    List.map_map]
  exact trimPadding_append _ _ hlast

/-- **Any bytes survive base64url.** -/
theorem fromBase64Url_toBase64Url (bytes : Octets) :
    fromBase64Url (toBase64Url bytes) = some bytes := by
  have hback : (((Base64.sextets bytes).map urlDigit).map fun c => if c = '-' then '+' else c).map
      (fun c => if c = '_' then '/' else c) = (Base64.sextets bytes).map Base64.digit := by
    rw [List.map_map, List.map_map]
    refine List.map_congr_left fun n hn => ?_
    have hdigit := (urlDigit_spec (Base64.lt_of_mem_sextets hn)).2.2.2
    dsimp only [Function.comp_apply] at hdigit ⊢
    exact hdigit
  rw [toBase64Url_eq, fromBase64Url, hback, List.length_map]
  exact Base64.decode_encode bytes

/-! ## 3. Run codes -/

theorem withoutSpaces_of_not_space {s : Str} (h : ∀ c ∈ s, isJsSpace c = false) :
    withoutSpaces s = s := by
  refine List.filter_eq_self.mpr fun c hc => ?_
  rw [h c hc]
  rfl

/-- A code has no blanks of its own. -/
theorem not_space_of_mem_encodeRun (pf : Platform) (tape : Json) {c : Char}
    (h : c ∈ encodeRun pf tape) : isJsSpace c = false := by
  rcases List.mem_append.mp h with h | h
  · have hall : ∀ c ∈ runCodePrefix, isJsSpace c = false := Str.forall_mem_of_all (by decide)
    exact hall c h
  · rw [toBase64Url_eq] at h
    obtain ⟨n, hn, rfl⟩ := List.mem_map.mp h
    exact (urlDigit_spec (Base64.lt_of_mem_sextets hn)).2.1

/-- The text of a tape's JSON comes back from its bytes. -/
theorem decodeText_utf8 {s : Str} (h : s.head? = some '{') : decodeText (utf8 s) = s := by
  rw [decodeText, runes_utf8, h, if_neg (by decide)]

/-- **What a code decodes to**: the tape, if its JSON text is short enough. -/
theorem decodeRun_of_code {pf : Platform} (hpf : pf.Lossless) {tape : Json}
    (ht : isTape tape = true) {code text : Str} (hc : shareableRunCode pf tape = some code)
    (htext : withoutSpaces text = code) :
    decodeRun pf text =
      if (utf8 (pf.stringify tape)).length > maxTapeJson then none else some tape := by
  unfold shareableRunCode at hc
  split at hc
  · cases hc
  · rename_i hlen
    obtain rfl := Option.some.inj hc
    have hpre : Str.hasPrefix (encodeRun pf tape) runCodePrefix = true := by
      rw [Str.hasPrefix_iff]
      exact List.prefix_append _ _
    have hdrop : (encodeRun pf tape).drop runCodePrefix.length =
        toBase64Url (pf.deflateRaw (utf8 (pf.stringify tape))) := List.drop_left
    rw [decodeRun, htext, if_neg (by simp [hpre, hlen]), hdrop, fromBase64Url_toBase64Url]
    show (pipe (pf.inflateRaw (pf.deflateRaw _)) _).bind _ = _
    rw [hpf.deflate, pipe, Option.bind_some]
    split
    · rfl
    · show (pf.parse (decodeText _)).bind _ = _
      rw [decodeText_utf8 (hpf.brace tape ht), hpf.json tape ht, Option.bind_some, if_pos ht]

/-! ## 4. A compressor and a tape -/

/-- The JSON of `Lib.Json`, and a compressor that knows one text and stores every other. -/
def dictionary (entry : Octets) : Platform where
  stringify := Json.print
  parse := Json.parse
  deflateRaw bytes := if bytes = entry then [0] else 1 :: bytes
  inflateRaw
    | [] => none
    | b :: bytes => if b = 0 then some entry else some bytes

theorem dictionary_lossless (entry : Octets) : (dictionary entry).Lossless where
  json tape _ := Json.parse_print tape
  brace tape ht := by
    cases tape with
    | obj fs => rcases fs with _ | ⟨⟨k, v⟩, fs⟩ <;> rfl
    | _ => exact absurd ht (by simp [isTape, isNumWith, Json.field?])
  deflate bytes := by
    by_cases h : bytes = entry
    · simp [dictionary, h]
    · simp [dictionary, h]

/-- A tape of a run that took `n + 1` random values, all of them zero. -/
def zeroTape (n : Nat) : Json :=
  .obj [("v".toList, .num 1), ("date".toList, .str "2026-01-01".toList), ("inputs".toList, .arr []),
    ("impure".toList, .arr (.num 0 :: List.replicate n (.num 0))), ("chaos".toList, .arr []),
    ("restarts".toList, .arr []), ("liveTick".toList, .num 0)]

theorem isTape_zeroTape (n : Nat) : isTape (zeroTape n) = true := by
  have himpure : isArrayOf isU32 (some (.arr (.num 0 :: List.replicate n (.num 0)))) = true := by
    have h0 : isU32 (.num 0) = true := by decide +kernel
    simp [isArrayOf, h0]
  have hprops : prop "v" (zeroTape n) = some (.num 1) ∧
      prop "date" (zeroTape n) = some (.str "2026-01-01".toList) ∧
      prop "liveTick" (zeroTape n) = some (.num 0) ∧
      prop "impure" (zeroTape n) = some (.arr (.num 0 :: List.replicate n (.num 0))) ∧
      prop "chaos" (zeroTape n) = some (.arr []) ∧ prop "inputs" (zeroTape n) = some (.arr []) ∧
      prop "restarts" (zeroTape n) = some (.arr []) := ⟨rfl, rfl, rfl, rfl, rfl, rfl, rfl⟩
  obtain ⟨hv, hdate, hlive, himp, hchaos, hinputs, hrestarts⟩ := hprops
  have hdate' : isDate (some (.str "2026-01-01".toList)) = true := by decide
  have hlive' : isTick (some (.num 0)) = true := by decide +kernel
  rw [isTape, hv, hdate, hlive, himp, hchaos, hinputs, hrestarts, hdate', hlive', himpure]
  rfl

/-! ## 5. The round trip -/

/-- **When a run code round-trips**: a code that was handed out decodes to its tape, with any
    blanks in it, exactly if the tape's JSON text has at most `MAX_TAPE_JSON` bytes. -/
theorem run_code_decodes_iff (pf : Platform) (hpf : pf.Lossless) (tape : Json)
    (ht : isTape tape = true) (code : Str) (hc : shareableRunCode pf tape = some code) :
    (∀ text, withoutSpaces text = code → decodeRun pf text = some tape) ↔
      (utf8 (pf.stringify tape)).length ≤ maxTapeJson := by
  constructor
  · intro h
    have hself : withoutSpaces code = code := by
      unfold shareableRunCode at hc
      split at hc
      · cases hc
      · obtain rfl := Option.some.inj hc
        exact withoutSpaces_of_not_space fun c hm => not_space_of_mem_encodeRun pf tape hm
    have hdec := h code hself
    rw [decodeRun_of_code hpf ht hc hself] at hdec
    split at hdec
    · cases hdec
    · omega
  · intro h text htext
    rw [decodeRun_of_code hpf ht hc htext, if_neg (by omega)]

/-- A short tape, in a compressor that stores it: its code is handed out, and decodes. -/
theorem run_code_decodes_iff_short :
    let pf := dictionary []
    ∃ code, shareableRunCode pf (zeroTape 1) = some code ∧
      ∀ text, withoutSpaces text = code → decodeRun pf text = some (zeroTape 1) := by
  have hlen : jsLength (encodeRun (dictionary []) (zeroTape 1)) ≤ maxRunCode := by decide +kernel
  have hcode : shareableRunCode (dictionary []) (zeroTape 1) =
      some (encodeRun (dictionary []) (zeroTape 1)) := if_neg (by omega)
  have hjson : (utf8 ((dictionary []).stringify (zeroTape 1))).length ≤ maxTapeJson := by
    decide +kernel
  exact ⟨_, hcode, (run_code_decodes_iff _ (dictionary_lossless []) _ (isTape_zeroTape 1) _ hcode).mpr
    hjson⟩

theorem length_print_zeroTape (n : Nat) : 2 * n < (Json.print (zeroTape n)).length := by
  have h := Json.length_printTail_replicate n (.num 0)
  have h0 : (Json.print (.num 0)).length = 1 := by decide +kernel
  rw [h0] at h
  simp only [zeroTape, Json.print, Json.printFields, List.length_append, List.length_cons, h]
  omega

/-- The code of such a tape is handed out, and refused. -/
theorem decodeRun_zeroTape (n : Nat) (h : maxTapeJson ≤ 2 * n) :
    let pf := dictionary (utf8 (Json.print (zeroTape n)))
    shareableRunCode pf (zeroTape n) = some "RPL1.AA".toList ∧
      decodeRun pf "RPL1.AA".toList = none := by
  intro pf
  have hcode : shareableRunCode pf (zeroTape n) = some "RPL1.AA".toList := by
    have hrun : encodeRun pf (zeroTape n) = "RPL1.AA".toList := by
      have hdef : pf.deflateRaw (utf8 (pf.stringify (zeroTape n))) = [0] := if_pos rfl
      rw [encodeRun, hdef]
      decide +kernel
    rw [shareableRunCode, hrun, if_neg (by decide)]
  refine ⟨hcode, ?_⟩
  have hlen := length_print_zeroTape n
  have hutf8 := length_le_utf8 (Json.print (zeroTape n))
  have hspaces : withoutSpaces "RPL1.AA".toList = "RPL1.AA".toList := by decide
  rw [decodeRun_of_code (dictionary_lossless _) (isTape_zeroTape n) hcode hspaces]
  exact if_pos (show (utf8 (Json.print (zeroTape n))).length > maxTapeJson by omega)

/-- The code of a tape with 2²¹ + 1 zeros, which compress well, is refused. -/
theorem run_code_refused :
    let pf := dictionary (utf8 (Json.print (zeroTape (2 ^ 21))))
    pf.Lossless ∧ isTape (zeroTape (2 ^ 21)) = true ∧
      shareableRunCode pf (zeroTape (2 ^ 21)) = some "RPL1.AA".toList ∧
      decodeRun pf "RPL1.AA".toList = none :=
  ⟨dictionary_lossless _, isTape_zeroTape _, decodeRun_zeroTape (2 ^ 21) (by decide)⟩

end DevDashboard.Web.Replay
