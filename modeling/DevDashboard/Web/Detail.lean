/-
  File:      DevDashboard/Web/Detail.lean
  Subject:   FROM A ROW TO ITS WORKFLOW (`detailPath` of `Workflows.tsx`, `useWorkflow`, and the
             handler of `GET /api/workflows/{appId}/{instanceId}`).

  The two ids are put into a link and later into a request as they are. In between stand the
  browser (`Lib.WebUrl`), React Router, `net/url` and chi. React Router and chi are parameters;
  `RouterDocs` and `ChiDocs` say what is relied on. The first check of the handler, on the store,
  is left out.

  * `served` -- the ids that `service.Get` is called with for a row;
  * `Addressable` -- the condition on the two ids and the selected store;
  * **`row_served_iff`** -- `Get` is called with the ids of the row exactly if they are addressable;
  * `row_not_addressed` -- the instance `order/42` of the app `shop` is not found.
-/
import DevDashboard.Lib.Utf8
import DevDashboard.Lib.Path
import DevDashboard.Lib.WebUrl

namespace DevDashboard.Web.Detail

open Lib WebUrl
open Url (Octets utf8 unescape)

/-! ## 1. The link and the request -/

/-- What `encodeURIComponent` leaves as it is. -/
def unreserved (c : Char) : Bool := c.isAlphanum || "-_.!~*'()".toList.contains c

/-- `encodeURIComponent`. -/
def encodeURIComponent (s : Str) : Str :=
  s.flatMap fun c => if unreserved c then [c] else (String.utf8EncodeChar c).flatMap escapeByte

/-- `store ? "?store=…" : ""`; an empty id is no store. -/
def storeQuery (store : Str) : Str :=
  if store = [] then [] else "?store=".toList ++ encodeURIComponent store

/-- `detailPath`, without the query. -/
def detailBase (appId instanceId : Str) : Str :=
  "/workflows/".toList ++ appId ++ '/' :: instanceId

/-- `detailPath`. -/
def detailPath (selectedStore appId instanceId : Str) : Str :=
  detailBase appId instanceId ++ storeQuery selectedStore

/-- `BASE_URL` without its slash at the end, given by its segments. -/
def baseText (base : List Str) : Str := base.flatMap ('/' :: ·)

/-- `apiUrl`. -/
def apiUrl (base : List Str) (path : Str) : Str := baseText base ++ "/api".toList ++ path

/-- What `useParams` and `useSearchParams` give the detail page. -/
structure RouteMatch where
  appId : Str
  instanceId : Str
  store : Str

/-- The path that the browser requests for `useWorkflow`; nothing is requested without both ids. -/
def useWorkflow (base : List Str) (m : RouteMatch) : Option Str :=
  if m.appId = [] ∨ m.instanceId = [] then none
  else
    let url := apiUrl base ("/workflows/".toList ++ m.appId ++ '/' :: m.instanceId ++
      storeQuery m.store)
    some (baseText (segments url.tail))

/-! ## 2. React Router -/

/-- `decodeURIComponent`; `none` where it throws. -/
def decodeURIComponent (s : Str) : Option Str :=
  (unescape s).bind fun u => if utf8 (runes u) = u then some (runes u) else none

/-- `.replace(/%2F/g, "/")`. -/
def slashBack : Str → Str
  | [] => []
  | '%' :: '2' :: 'F' :: t => '/' :: slashBack t
  | c :: t => c :: slashBack t

/-- The route parameters read from two segments of a path: decoded, and as they stand if the path
    cannot be decoded. -/
def routeParams (x y : Str) : Str × Str :=
  match decodeURIComponent x, decodeURIComponent y with
  | some a, some i => (slashBack a, slashBack i)
  | _, _ => (slashBack x, slashBack y)

/-- `.replace(/\/\/+/g, "/")`. -/
def joinSlashes : Str → Str
  | [] => []
  | c :: s => if c = '/' ∧ s.head? = some '/' then joinSlashes s else c :: joinSlashes s

/-- `.replace(/ $/, "%20")`. -/
def encodeLast (s : Str) : Str :=
  if s.getLast? = some ' ' then s.dropLast ++ "%20".toList else s

/-- The forms that React Router may bring a path into before the browser reads it. -/
def rewritings (path : Str) : List Str :=
  [path, joinSlashes path, encodeLast path, encodeLast (joinSlashes path)]

def lowerByte (b : UInt8) : UInt8 := if 65 ≤ b ∧ b ≤ 90 then b + 32 else b

/-- The segments are the same but for escapes and the case of letters. -/
def SameText (S T : List Str) : Prop :=
  S.map (fun s => (percentDecode s).map lowerByte) =
    T.map (fun s => (percentDecode s).map lowerByte)

/-- **React Router on a link** `path` or `path?store=…`, for the route
    `workflows/:appId/:instanceId` under a base path. -/
structure RouterDocs (base : List Str) (router : Str → Option RouteMatch) : Prop where
  /-- Two segments below `workflows` are the parameters. -/
  complete : ∀ path s x y, joinSlashes path = path → (s = [] → encodeLast path = path) →
    segments (baseText base ++ path ++ storeQuery s).tail = base ++ ["workflows".toList, x, y] →
    x ≠ [] → y ≠ [] → ∃ store, router (path ++ storeQuery s) =
      some ⟨(routeParams x y).1, (routeParams x y).2, store⟩
  /-- The route matches nothing else, but for slashes at the end and the case of letters. -/
  sound : ∀ path s m, router (path ++ storeQuery s) = some m → ∃ path' ∈ rewritings path,
    ∃ pre x y n, segments (baseText base ++ path' ++ storeQuery s).tail =
        pre ++ x :: y :: List.replicate n [] ∧
      x ≠ [] ∧ y ≠ [] ∧ SameText pre (base ++ ["workflows".toList]) ∧
      (m.appId, m.instanceId) = routeParams x y
  /-- The query of a link is read back. -/
  store : ∀ path s m, '?' ∉ path → '#' ∉ path → router (path ++ storeQuery s) = some m →
    m.store = s

/-! ## 3. The server -/

/-- What `shouldEscape` leaves in a path. -/
def goKeeps (b : UInt8) : Bool :=
  let c := Char.ofNat b.toNat
  decide (b.toNat < 0x80) && (c.isAlphanum || "-_.~$&+,/:;=@".toList.contains c)

/-- `escape` for a path. -/
def escapePath (bs : Octets) : Str :=
  bs.flatMap fun b => if goKeeps b then [Char.ofNat b.toNat] else escapeByte b

/-- `url.URL` as far as the routing reads it. -/
structure GoURL where
  path : Octets
  rawPath : Str

/-- `setPath`: `RawPath` is set only if the path is not what escaping `Path` gives. -/
def setPath (p : Str) : Option GoURL :=
  (unescape p).map fun path => ⟨path, if escapePath path = p then [] else p⟩

/-- The path that chi routes on. -/
def GoURL.routePath (u : GoURL) : Octets := if u.rawPath = [] then u.path else utf8 u.rawPath

/-- What stands before the ids in a request. -/
def apiPrefix (base : List Str) : Str := apiUrl base "/workflows/".toList

/-- **chi on the pattern `/{appId}/{instanceId}`** of the mounted router: a parameter reaches up
    to the next slash. -/
structure ChiDocs (base : List Str) (chi : GoURL → Option (Octets × Octets)) : Prop where
  complete : ∀ u x y, x ≠ [] → y ≠ [] → 0x2f ∉ x → 0x2f ∉ y →
    u.routePath = utf8 (apiPrefix base) ++ x ++ 0x2f :: y → chi u = some (x, y)
  sound : ∀ u x y, chi u = some (x, y) →
    u.routePath = utf8 (apiPrefix base) ++ x ++ 0x2f :: y ∧ 0x2f ∉ x ∧ 0x2f ∉ y

/-- A base path is made of plain words. -/
def PlainBase (base : List Str) : Prop :=
  ∀ s ∈ base, s ≠ [] ∧ ∀ c ∈ s, c.isAlphanum = true ∨ c = '-' ∨ c = '_'

/-- **The ids that `service.Get` is called with for a row.** -/
def served (base : List Str) (router : Str → Option RouteMatch)
    (chi : GoURL → Option (Octets × Octets)) (selectedStore appId instanceId : Str) :
    Option (Octets × Octets) :=
  (router (detailPath selectedStore appId instanceId)).bind fun m =>
    (useWorkflow base m).bind fun path => (setPath path).bind chi

/-! ## 4. Texts with a plain beginning -/

/-- Segments as they stand at the beginning of a path, each with a slash behind it. -/
def opening (pre : List Str) : Str := pre.flatMap (· ++ ['/'])

theorem baseText_append (pre : List Str) (t : Str) :
    baseText pre ++ '/' :: t = '/' :: (opening pre ++ t) := by
  induction pre with
  | nil => rfl
  | cons s pre ih =>
      show '/' :: s ++ baseText pre ++ '/' :: t = '/' :: (s ++ ['/'] ++ opening pre ++ t)
      rw [List.append_assoc, ih]
      simp

theorem opening_append (S T : List Str) : opening (S ++ T) = opening S ++ opening T :=
  List.flatMap_append

theorem plain_of_word {c : Char} (h : c.isAlphanum = true ∨ c = '-' ∨ c = '_') :
    keeps c = true ∧ isTab c = false ∧ isCut c = false ∧ isSep c = false ∧ c ≠ '.' ∧ c ≠ '%' ∧
      goKeeps (UInt8.ofNat c.toNat) = true ∧ c.toNat < 0x80 := by
  have hlt : c.toNat < 0x80 := by
    rcases h with h | rfl | rfl
    · delta Char.isAlphanum Char.isAlpha Char.isUpper Char.isLower Char.isDigit at h
      simp only [Bool.or_eq_true, Bool.and_eq_true, decide_eq_true_eq, UInt32.le_iff_toNat_le,
        ge_iff_le] at h
      have : c.val.toNat = c.toNat := rfl
      have : 'Z'.val.toNat = 90 := rfl
      have : 'z'.val.toNat = 122 := rfl
      have : '9'.val.toNat = 57 := rfl
      omega
    · decide
    · decide
  have hall : ∀ i : Fin 0x80, ((Char.ofNat i).isAlphanum = true ∨ Char.ofNat i = '-' ∨
      Char.ofNat i = '_') → keeps (Char.ofNat i) = true ∧ isTab (Char.ofNat i) = false ∧
        isCut (Char.ofNat i) = false ∧ isSep (Char.ofNat i) = false ∧ Char.ofNat i ≠ '.' ∧
        Char.ofNat i ≠ '%' ∧ goKeeps (UInt8.ofNat (Char.ofNat i).toNat) = true := by
    decide +kernel
  have := hall ⟨c.toNat, hlt⟩
  rw [Char.ofNat_toNat] at this
  obtain ⟨h₁, h₂, h₃, h₄, h₅, h₆, h₇⟩ := this h
  exact ⟨h₁, h₂, h₃, h₄, h₅, h₆, h₇, hlt⟩

section Opening

variable {pre : List Str} (hpre : PlainBase pre)
include hpre

theorem splitOnP_opening (t : Str) :
    (opening pre ++ t).splitOnP isSep = pre ++ t.splitOnP isSep := by
  induction pre with
  | nil => rfl
  | cons s pre ih =>
      have hs := (hpre s List.mem_cons_self).2
      show ((s ++ ['/']) ++ opening pre ++ t).splitOnP isSep = s :: (pre ++ t.splitOnP isSep)
      rw [List.append_assoc, List.append_assoc, List.singleton_append,
        List.splitOnP_append_cons_of_forall_mem
          (fun c hc => (plain_of_word (hs c hc)).2.2.2.1) '/' (by decide),
        ih fun r hr => hpre r (List.mem_cons_of_mem s hr)]

theorem map_encode_opening : pre.map encode = pre := by
  conv_rhs => rw [← List.map_id pre]
  exact List.map_congr_left fun s hs =>
    encode_of_keeps fun c hc => (plain_of_word ((hpre s hs).2 c hc)).1

theorem noDots_opening : NoDots pre := by
  intro s hs
  obtain ⟨hne, hword⟩ := hpre s hs
  obtain ⟨c, s, rfl⟩ := List.exists_cons_of_ne_nil hne
  have hc := plain_of_word (hword c List.mem_cons_self)
  have hlow : c.toLower ≠ '.' ∧ c.toLower ≠ '%' := by
    have hall : ∀ i : Fin 0x80, Char.ofNat i ≠ '.' → Char.ofNat i ≠ '%' →
        (Char.ofNat i).toLower ≠ '.' ∧ (Char.ofNat i).toLower ≠ '%' := by decide +kernel
    have := hall ⟨c.toNat, hc.2.2.2.2.2.2.2⟩
    rw [Char.ofNat_toNat] at this
    exact this hc.2.2.2.2.1 hc.2.2.2.2.2.1
  unfold isDot isDotDot
  simp [hlow.1, hlow.2]

theorem mem_opening {c : Char} (h : c ∈ opening pre) :
    (c.isAlphanum = true ∨ c = '-' ∨ c = '_') ∨ c = '/' := by
  obtain ⟨s, hs, hc⟩ := List.mem_flatMap.mp h
  rcases List.mem_append.mp hc with hc | hc
  · exact .inl ((hpre s hs).2 c hc)
  · exact .inr (List.mem_singleton.mp hc)

/-- The bytes of the beginning of a path. -/
theorem length_opening (t : Str) :
    (percentDecode (opening pre ++ t)).length = weight pre + (percentDecode t).length := by
  induction pre with
  | nil => simp [opening]
  | cons s pre ih =>
      have ih := ih fun r hr => hpre r (List.mem_cons_of_mem s hr)
      show (percentDecode ((s ++ ['/']) ++ opening pre ++ t)).length = _
      rw [List.append_assoc, List.append_assoc, List.singleton_append,
        percentDecode_append_cons (by decide), percentDecode_plain (by simp),
        List.length_append, List.length_append, ih, weight_cons]
      have : (String.utf8EncodeChar '/').length = 1 := by decide
      omega

/-- **When the text of a path with two ids at its end is tidy.** -/
theorem tidy_opening_iff {a i q : Str} :
    Tidy (opening pre ++ (a ++ '/' :: i)) q ↔
      ((∀ c ∈ a, isTab c = false ∧ isCut c = false) ∧
        (∀ c ∈ i, isTab c = false ∧ isCut c = false) ∧
        (q = [] → ∀ c ∈ i.getLast?, isBlank c = false)) ∧
      NoDots (a.splitOnP isSep) ∧ NoDots (i.splitOnP isSep) := by
  have hsplit : (opening pre ++ (a ++ '/' :: i)).splitOnP isSep =
      pre ++ (a.splitOnP isSep ++ i.splitOnP isSep) := by
    rw [splitOnP_opening hpre, List.splitOnP_append_cons _ _ (by decide)]
  have hlast : (opening pre ++ (a ++ '/' :: i)).getLast? = some (i.getLast?.getD '/') := by
    rw [← List.append_assoc, List.getLast?_append_of_ne_nil _ (List.cons_ne_nil '/' i),
      List.getLast?_cons]
  unfold Tidy Whole
  rw [hsplit, hlast]
  refine and_congr ⟨fun h => ⟨?_, ?_, fun hq c hc => ?_⟩, fun h => ⟨?_, fun hq c hc => ?_⟩⟩ ?_
  · exact fun c hc => h.1 c (List.mem_append_right _ (List.mem_append_left _ hc))
  · exact fun c hc => h.1 c
      (List.mem_append_right _ (List.mem_append_right _ (List.mem_cons_of_mem _ hc)))
  · exact h.2 hq c (by rw [hc]; rfl)
  · intro c hc
    rcases List.mem_append.mp hc with hc | hc
    · rcases mem_opening hpre hc with hc | rfl
      · exact ⟨(plain_of_word hc).2.1, (plain_of_word hc).2.2.1⟩
      · exact ⟨rfl, rfl⟩
    · rcases List.mem_append.mp hc with hc | hc
      · exact h.1 c hc
      · rcases List.mem_cons.mp hc with rfl | hc
        · exact ⟨rfl, rfl⟩
        · exact h.2.1 c hc
  · cases hi : i.getLast? with
    | none =>
        rw [hi] at hc
        cases hc
        rfl
    | some d =>
        rw [hi] at hc
        cases hc
        exact h.2.2 hq d hi
  · constructor
    · intro h
      exact ⟨fun s hs => h s (List.mem_append_right _ (List.mem_append_left _ hs)),
        fun s hs => h s (List.mem_append_right _ (List.mem_append_right _ hs))⟩
    · rintro ⟨ha, hi⟩ s hs
      rcases List.mem_append.mp hs with hs | hs
      · exact noDots_opening hpre s hs
      · exact (List.mem_append.mp hs).elim (ha s) (hi s)

end Opening

/-- The query is one. -/
theorem isQuery_storeQuery (s : Str) : IsQuery (storeQuery s) := by
  have hchars : ∀ c ∈ "?store=".toList ++ encodeURIComponent s,
      isTab c = false ∧ isBlank c = false := by
    have hascii : ∀ i : Fin 0x80, unreserved (Char.ofNat i) = true →
        isTab (Char.ofNat i) = false ∧ isBlank (Char.ofNat i) = false := by decide +kernel
    have hhex : ∀ i : Fin 16, isTab (upperHex i) = false ∧ isBlank (upperHex i) = false := by
      decide
    intro c hc
    rcases List.mem_append.mp hc with hc | hc
    · have hall : ∀ d ∈ "?store=".toList, isTab d = false ∧ isBlank d = false :=
        Str.forall_mem_of_all (by decide)
      exact hall c hc
    · obtain ⟨d, -, hd⟩ := List.mem_flatMap.mp hc
      split at hd
      · rename_i hun
        obtain rfl := List.mem_singleton.mp hd
        have hlt : c.toNat < 0x80 := by
          rcases Bool.or_eq_true_iff.mp hun with h | h
          · exact (plain_of_word (.inl h)).2.2.2.2.2.2.2
          · have hall : ∀ d ∈ "-_.!~*'()".toList, d.toNat < 0x80 :=
              Str.forall_mem_of_all (by decide)
            exact hall c (List.contains_iff_mem.mp h)
        have := hascii ⟨c.toNat, hlt⟩
        rw [Char.ofNat_toNat] at this
        exact this hun
      · obtain ⟨b, -, hb⟩ := List.mem_flatMap.mp hd
        have hlt := b.toNat_lt
        rcases List.mem_cons.mp hb with rfl | hb
        · exact ⟨rfl, rfl⟩
        · rcases List.mem_cons.mp hb with rfl | hb
          · exact hhex ⟨b.toNat / 16, by omega⟩
          · rw [List.mem_singleton.mp hb]
            exact hhex ⟨b.toNat % 16, by omega⟩
  unfold storeQuery
  split
  · exact .inl rfl
  · exact .inr ⟨rfl, fun c hc => (hchars c hc).1,
      fun c hc => (hchars c (List.mem_of_getLast? hc)).2⟩

/-! ## 5. What the router does to the ids -/

theorem slashBack_cons_of_ne {c : Char} (h : c ≠ '%') (s : Str) :
    slashBack (c :: s) = c :: slashBack s :=
  slashBack.eq_3 c s fun _ hc _ => h hc

theorem slashBack_cons_cases (c : Char) (s : Str) :
    (∃ t, c = '%' ∧ s = '2' :: 'F' :: t ∧ slashBack (c :: s) = '/' :: slashBack t) ∨
      slashBack (c :: s) = c :: slashBack s := by
  by_cases h : ∃ t, c = '%' ∧ s = '2' :: 'F' :: t
  · obtain ⟨t, rfl, rfl⟩ := h
    exact .inl ⟨t, rfl, rfl, rfl⟩
  · exact .inr (slashBack.eq_3 c s fun t hc hs => h ⟨t, hc, hs⟩)

theorem slashBack_of_not_mem {s : Str} (h : '%' ∉ s) : slashBack s = s := by
  induction s with
  | nil => rfl
  | cons c s ih =>
      rw [slashBack_cons_of_ne fun he => h (he ▸ List.mem_cons_self),
        ih fun hm => h (List.mem_cons_of_mem c hm)]

theorem twoHex_slashBack (s : Str) : twoHex (slashBack s) = twoHex s := by
  have hp : Url.unhex '%' = none := by decide
  have hs : Url.unhex '/' = none := by decide
  cases s with
  | nil => rfl
  | cons c s =>
      obtain ⟨t, rfl, rfl, he⟩ | he := slashBack_cons_cases c s
      · rw [he]
        cases slashBack t <;> simp [twoHex, hp, hs]
      · rw [he]
        cases s with
        | nil => rfl
        | cons d s =>
            obtain ⟨t, rfl, rfl, he⟩ | he := slashBack_cons_cases d s
            · rw [he]
              simp [twoHex, hp, hs]
            · rw [he]
              rfl

theorem ne_percent_of_unhex {c : Char} {n : Nat} (h : Url.unhex c = some n) : c ≠ '%' := by
  rintro rfl
  cases h

/-- Putting slashes back keeps the bytes. -/
theorem percentDecode_slashBack (s : Str) : percentDecode (slashBack s) = percentDecode s := by
  match s with
  | [] => rfl
  | c :: s =>
      obtain ⟨t, rfl, rfl, he⟩ | he := slashBack_cons_cases c s
      · rw [he, percentDecode_plain (by simp), percentDecode_slashBack t,
          percentDecode_escape (a := 2) (b := 15) (by decide) (by decide)]
        rfl
      · obtain ⟨x, y, t, a, b, rfl, rfl, hx, hy⟩ | h := escape_or_plain c s
        · rw [he, slashBack_cons_of_ne (ne_percent_of_unhex hx),
            slashBack_cons_of_ne (ne_percent_of_unhex hy), percentDecode_escape hx hy,
            percentDecode_escape hx hy, percentDecode_slashBack t]
        · rw [he, percentDecode_plain h, percentDecode_plain fun hc => by
            rw [twoHex_slashBack]
            exact h hc, percentDecode_slashBack s]
  termination_by s.length

/-- … and makes no escape complete. -/
theorem unescape_slashBack (s : Str) : unescape (slashBack s) = unescape s := by
  match s with
  | [] => rfl
  | c :: s =>
      obtain ⟨t, rfl, rfl, he⟩ | he := slashBack_cons_cases c s
      · rw [he, Url.unescape_cons_of_ne (by decide), unescape_slashBack t, Url.unescape_percent]
        rfl
      · rw [he]
        obtain ⟨x, y, t, a, b, rfl, rfl, hx, hy⟩ | h := escape_or_plain c s
        · rw [slashBack_cons_of_ne (ne_percent_of_unhex hx),
            slashBack_cons_of_ne (ne_percent_of_unhex hy), Url.unescape_percent,
            Url.unescape_percent, unescape_slashBack t]
        · by_cases hc : c = '%'
          · subst hc
            rw [unescape_percent_of_not (h rfl),
              unescape_percent_of_not ((twoHex_slashBack s).trans (h rfl))]
          · rw [Url.unescape_cons_of_ne hc, Url.unescape_cons_of_ne hc, unescape_slashBack s]
  termination_by s.length

theorem decodeURIComponent_some {x a : Str} (h : decodeURIComponent x = some a) :
    unescape x = some (utf8 a) := by
  obtain ⟨u, hu, hif⟩ := Option.bind_eq_some_iff.mp h
  split at hif
  · cases hif
    rw [hu, ‹utf8 (runes u) = u›]
  · cases hif

theorem decodeURIComponent_of_unescape {x a : Str} (h : unescape x = some (utf8 a)) :
    decodeURIComponent x = some a := by
  unfold decodeURIComponent
  rw [h, Option.bind_some, runes_utf8, if_pos rfl]

/-- A parameter stands for no more bytes than its segment. -/
theorem routeParams_bound (x y : Str) :
    (percentDecode (routeParams x y).1).length ≤ (percentDecode x).length ∧
      (percentDecode (routeParams x y).2).length ≤ (percentDecode y).length := by
  have hdec : ∀ {x a : Str}, decodeURIComponent x = some a →
      (percentDecode (slashBack a)).length ≤ (percentDecode x).length := fun {x a} h => by
    rw [percentDecode_slashBack, percentDecode_of_unescape (decodeURIComponent_some h)]
    exact length_percentDecode_le a
  unfold routeParams
  split
  · exact ⟨hdec ‹_›, hdec ‹_›⟩
  · rw [percentDecode_slashBack, percentDecode_slashBack]
    exact ⟨le_rfl, le_rfl⟩

theorem length_joinSlashes (s : Str) :
    (percentDecode (joinSlashes s)).length ≤ (percentDecode s).length ∧
      ((percentDecode (joinSlashes s)).length = (percentDecode s).length →
        joinSlashes s = s) := by
  have hhex : ∀ {c : Char} {n : Nat} {t : Str}, Url.unhex c = some n →
      joinSlashes (c :: t) = c :: joinSlashes t := fun {c n t} h => by
    refine if_neg ?_
    rintro ⟨rfl, -⟩
    cases h
  match s with
  | [] => simp [joinSlashes]
  | c :: s =>
      obtain ⟨x, y, t, a, b, rfl, rfl, hx, hy⟩ | h := escape_or_plain c s
      · have ih := length_joinSlashes t
        have he : joinSlashes ('%' :: x :: y :: t) = '%' :: x :: y :: joinSlashes t := by
          rw [joinSlashes, if_neg (by simp), hhex hx, hhex hy]
        rw [he, percentDecode_escape hx hy, percentDecode_escape hx hy]
        refine ⟨Nat.succ_le_succ ih.1, fun heq => ?_⟩
        rw [ih.2 (Nat.succ.inj heq)]
      · have ih := length_joinSlashes s
        have hpos := Char.utf8Size_pos c
        rw [joinSlashes, percentDecode_plain h, List.length_append, String.length_utf8EncodeChar]
        split
        · exact ⟨by omega, fun heq => by omega⟩
        · have hle := length_percentDecode_cons_le c (joinSlashes s)
          refine ⟨by omega, fun heq => ?_⟩
          rw [ih.2 (by omega)]
  termination_by s.length

theorem percentDecode_encodeLast (s : Str) :
    (percentDecode (encodeLast s)).length = (percentDecode s).length := by
  unfold encodeLast
  split
  · obtain ⟨u, rfl⟩ := List.getLast?_eq_some_iff.mp ‹_›
    rw [List.dropLast_concat, percentDecode_append_cons (d := ' ') (by decide)]
    show (percentDecode (u ++ '%' :: "20".toList)).length = _
    rw [percentDecode_append_cons (by decide), List.length_append, List.length_append]
    rfl
  · rfl

/-- However a path is rewritten, it stands for no more bytes. -/
theorem length_rewriting {path path' : Str} (h : path' ∈ rewritings path) :
    (percentDecode path').length ≤ (percentDecode path).length ∧
      ((percentDecode path').length = (percentDecode path).length →
        path' = path ∨ path' = encodeLast path) := by
  have hj := length_joinSlashes path
  simp only [rewritings, List.mem_cons, List.not_mem_nil, or_false] at h
  rcases h with rfl | rfl | rfl | rfl
  · exact ⟨le_rfl, fun _ => .inl rfl⟩
  · exact ⟨hj.1, fun heq => .inl (hj.2 heq)⟩
  · exact ⟨(percentDecode_encodeLast path).le, fun _ => .inr rfl⟩
  · rw [percentDecode_encodeLast]
    exact ⟨hj.1, fun heq => .inr (by rw [hj.2 heq])⟩

theorem weight_of_sameText {S T : List Str} (h : SameText S T) : weight S = weight T := by
  have := congrArg (fun l => (l.map fun o : Octets => o.length + 1).sum) h
  simpa [weight, Function.comp_def] using this

/-! ## 6. Ids that a path takes as one segment -/

/-- **An id that is one segment of a path, as it is**: not empty, no slash of either kind, no `?` or
    `#`, no tab or line break, no dot segment. -/
def Plain (s : Str) : Prop :=
  s ≠ [] ∧ (∀ c ∈ s, isTab c = false ∧ isCut c = false ∧ isSep c = false) ∧
    isDot s = false ∧ isDotDot s = false

/-- Without a store the id ends the reference, so no blank may end the id. -/
def EndsWell (store i : Str) : Prop := store = [] → ∀ c ∈ i.getLast?, isBlank c = false

theorem Plain.splitOnP_eq {s : Str} (h : Plain s) : s.splitOnP isSep = [s] :=
  List.splitOnP_eq_singleton fun c hc => (h.2.1 c hc).2.2

theorem Plain.noDots {s : Str} (h : Plain s) : NoDots (s.splitOnP isSep) := by
  rw [h.splitOnP_eq]
  intro r hr
  rw [List.mem_singleton.mp hr]
  exact h.2.2

theorem Plain.not_mem {s : Str} (h : Plain s) : '/' ∉ s ∧ '?' ∉ s ∧ '#' ∉ s :=
  ⟨fun hm => absurd (h.2.1 _ hm).2.2 (by decide), fun hm => absurd (h.2.1 _ hm).2.1 (by decide),
    fun hm => absurd (h.2.1 _ hm).2.1 (by decide)⟩

/-- What splits into one piece has no separator. -/
theorem not_isSep_of_length {t : Str} (h : (t.splitOnP isSep).length = 1) :
    ∀ c ∈ t, isSep c = false := by
  intro c hc
  by_contra hsep
  obtain ⟨u, v, rfl⟩ := List.append_of_mem hc
  rw [List.splitOnP_append_cons _ _ (by simpa using hsep), List.length_append] at h
  have hu := List.length_pos_iff.mpr (List.splitOnP_ne_nil isSep u)
  have hv := List.length_pos_iff.mpr (List.splitOnP_ne_nil isSep v)
  omega

section Request

variable {pre : List Str} (hpre : PlainBase pre)
include hpre

theorem plain_of_base {s : Str} (hs : s ∈ pre) {c : Char} (h : c ∈ s) :
    c.isAlphanum = true ∨ c = '-' ∨ c = '_' := (hpre s hs).2 c h

theorem length_opening_ids (a i : Str) :
    (percentDecode (opening pre ++ (a ++ '/' :: i))).length + 1 =
      weight pre + weight [a, i] := by
  rw [length_opening hpre, percentDecode_append_cons (by decide), percentDecode_plain (by simp),
    List.length_append, List.length_append]
  have : (String.utf8EncodeChar '/').length = 1 := by decide
  simp only [weight_cons, weight_nil]
  omega

/-- **A path that is read to as many bytes as it is written from, and to two segments behind its
    beginning**: the two ids are plain and stand there encoded. -/
theorem plain_of_segments {a i q : Str} {S : List Str} (hq : IsQuery q)
    (hseg : segments (opening pre ++ (a ++ '/' :: i) ++ q) = S)
    (hlen : S.length = pre.length + 2) (hne : ∀ s ∈ S.drop pre.length, s ≠ [])
    (hweight : weight S = weight pre + weight [a, i]) :
    Plain a ∧ Plain i ∧ (q = [] → ∀ c ∈ i.getLast?, isBlank c = false) ∧
      S = pre ++ [encode a, encode i] := by
  have htidy : Tidy (opening pre ++ (a ++ '/' :: i)) q :=
    tidy_of_weight hq (by rw [hseg, hweight, length_opening_ids hpre])
  have hS := segments_of_tidy hq htidy
  obtain ⟨⟨ha, hi, hlast⟩, hda, hdi⟩ := (tidy_opening_iff hpre).mp htidy
  rw [hseg, splitOnP_opening hpre, List.splitOnP_append_cons _ _ (by decide), List.map_append,
    List.map_append, map_encode_opening hpre] at hS
  have hcount := congrArg List.length hS
  simp only [List.length_append, List.length_map] at hcount
  have hpa := List.length_pos_iff.mpr (List.splitOnP_ne_nil isSep a)
  have hpi := List.length_pos_iff.mpr (List.splitOnP_ne_nil isSep i)
  have hsa := not_isSep_of_length (t := a) (by omega)
  have hsi := not_isSep_of_length (t := i) (by omega)
  rw [List.splitOnP_eq_singleton hsa] at hda hS
  rw [List.splitOnP_eq_singleton hsi] at hdi hS
  have hS' : S = pre ++ [encode a, encode i] := hS
  rw [hS', List.drop_left] at hne
  have hea : a ≠ [] := by
    rintro rfl
    exact hne _ List.mem_cons_self rfl
  have hei : i ≠ [] := by
    rintro rfl
    exact hne _ (List.mem_cons_of_mem _ List.mem_cons_self) rfl
  exact ⟨⟨hea, fun c hc => ⟨(ha c hc).1, (ha c hc).2, hsa c hc⟩, hda a List.mem_cons_self⟩,
    ⟨hei, fun c hc => ⟨(hi c hc).1, (hi c hc).2, hsi c hc⟩, hdi i List.mem_cons_self⟩, hlast, hS'⟩

/-- **Plain ids are read as they are written**, encoded. -/
theorem segments_of_plain {a i q : Str} (hq : IsQuery q) (ha : Plain a) (hi : Plain i)
    (hlast : q = [] → ∀ c ∈ i.getLast?, isBlank c = false) :
    segments (opening pre ++ (a ++ '/' :: i) ++ q) = pre ++ [encode a, encode i] := by
  have htidy : Tidy (opening pre ++ (a ++ '/' :: i)) q :=
    (tidy_opening_iff hpre).mpr ⟨⟨fun c hc => ⟨(ha.2.1 c hc).1, (ha.2.1 c hc).2.1⟩,
      fun c hc => ⟨(hi.2.1 c hc).1, (hi.2.1 c hc).2.1⟩, hlast⟩, ha.noDots, hi.noDots⟩
  rw [segments_of_tidy hq htidy, splitOnP_opening hpre,
    List.splitOnP_append_cons _ _ (by decide), ha.splitOnP_eq, hi.splitOnP_eq, List.map_append,
    map_encode_opening hpre]
  rfl

end Request

theorem storeQuery_eq_nil {s : Str} : storeQuery s = [] ↔ s = [] := by
  unfold storeQuery
  split
  · simp [*]
  · refine ⟨fun h => ?_, fun h => absurd h ‹_›⟩
    cases h

theorem PlainBase.append {base : List Str} (h : PlainBase base) {T : List Str} (hT : PlainBase T) :
    PlainBase (base ++ T) := fun s hs => (List.mem_append.mp hs).elim (h s) (hT s)

theorem plainBase_workflows : PlainBase ["workflows".toList] := by
  intro s hs
  rw [List.mem_singleton.mp hs]
  exact ⟨by decide, Str.forall_mem_of_all (by decide)⟩

theorem plainBase_api : PlainBase ["api".toList, "workflows".toList] := by
  intro s hs
  rcases List.mem_cons.mp hs with rfl | hs
  · exact ⟨by decide, Str.forall_mem_of_all (by decide)⟩
  · exact plainBase_workflows s hs

/-! ## 7. The link -/

theorem detailBase_eq (a i : Str) :
    detailBase a i = '/' :: (opening ["workflows".toList] ++ (a ++ '/' :: i)) := by
  have hword : "/workflows/".toList = '/' :: ("workflows".toList ++ ['/']) := by decide
  unfold detailBase opening
  rw [hword, List.flatMap_cons, List.flatMap_nil, List.append_nil, List.append_assoc,
    List.cons_append]

theorem detailBase_append (a i j : Str) : detailBase a (i ++ j) = detailBase a i ++ j := by
  unfold detailBase
  rw [List.append_assoc _ ('/' :: i), List.cons_append]

/-- A link that ends in a blank ends with the instance id. -/
theorem encodeLast_detailBase (a i : Str) :
    encodeLast (detailBase a i) = detailBase a i ∨
      ∃ j, i = j ++ [' '] ∧ encodeLast (detailBase a i) = detailBase a (j ++ "%20".toList) := by
  unfold encodeLast
  split
  · rename_i hlast
    rcases List.eq_nil_or_concat' i with rfl | ⟨j, c, rfl⟩
    · rw [detailBase_eq, ← List.append_assoc, ← List.cons_append,
        List.getLast?_append_of_ne_nil _ (List.cons_ne_nil _ _)] at hlast
      cases hlast
    · rw [detailBase_append, List.getLast?_concat] at hlast
      cases hlast
      refine .inr ⟨j, rfl, ?_⟩
      rw [detailBase_append, List.dropLast_concat, detailBase_append]
  · exact .inl rfl

theorem tail_baseText (base : List Str) (t q : Str) :
    (baseText base ++ '/' :: t ++ q).tail = opening base ++ t ++ q := by
  rw [baseText_append]
  rfl

theorem rewriting_head {t path' : Str} (ht : t.head? ≠ some '/') (hne : t ≠ [])
    (h : path' ∈ rewritings ('/' :: t)) : ∃ t', path' = '/' :: t' := by
  have hlast : ∀ s : Str, s ≠ [] → ∃ t', encodeLast ('/' :: s) = '/' :: t' := fun s hs => by
    unfold encodeLast
    split
    · obtain ⟨c, s, rfl⟩ := List.exists_cons_of_ne_nil hs
      exact ⟨_, rfl⟩
    · exact ⟨s, rfl⟩
  have hjoin : joinSlashes ('/' :: t) = '/' :: joinSlashes t := if_neg fun h => ht h.2
  have hjoin_ne : joinSlashes t ≠ [] := by
    obtain ⟨c, s, rfl⟩ := List.exists_cons_of_ne_nil hne
    rw [joinSlashes, if_neg]
    · exact List.cons_ne_nil _ _
    · rintro ⟨rfl, -⟩
      exact ht rfl
  simp only [rewritings, List.mem_cons, List.not_mem_nil, or_false, hjoin] at h
  rcases h with rfl | rfl | rfl | rfl
  · exact ⟨t, rfl⟩
  · exact ⟨_, rfl⟩
  · exact hlast t hne
  · exact hlast _ hjoin_ne

theorem encode_append (s t : Str) : encode (s ++ t) = encode s ++ encode t := List.flatMap_append

/-- A blank at the end of an id and its escape are encoded alike. -/
theorem encode_blank (i : Str) : encode (i ++ "%20".toList) = encode (i ++ [' ']) := by
  rw [encode_append, encode_append]
  rfl

theorem plain_of_encodeLast {i : Str} (h : Plain (i ++ "%20".toList)) : Plain (i ++ [' ']) := by
  obtain ⟨-, hchars, -⟩ := h
  have hlast : ∀ w : Str, (i ++ [' ']).map Char.toLower = w → w.getLast? = some ' ' := by
    rintro w rfl
    simp
  refine ⟨by simp, fun c hc => ?_, decide_eq_false fun hm => ?_, decide_eq_false fun hm => ?_⟩
  · rcases List.mem_append.mp hc with hc | hc
    · exact hchars c (List.mem_append_left _ hc)
    · rw [List.mem_singleton.mp hc]
      decide
  · have hall : ∀ w ∈ [".".toList, "%2e".toList], w.getLast? ≠ some ' ' := by decide
    exact hall _ hm (hlast _ rfl)
  · have hall : ∀ w ∈ ["..".toList, ".%2e".toList, "%2e.".toList, "%2e%2e".toList],
        w.getLast? ≠ some ' ' := by decide
    exact hall _ hm (hlast _ rfl)

section Router

variable {base : List Str} {router : Str → Option RouteMatch} (hb : PlainBase base)
  (hr : RouterDocs base router)
include hb hr

/-- **What the router makes of a row's link** stands for no more bytes than the two ids. If it
    stands for as many, then they are plain and were read from their encoded forms. -/
theorem router_bound {s a i : Str} {m : RouteMatch} (h : router (detailPath s a i) = some m) :
    weight [m.appId, m.instanceId] ≤ weight [a, i] ∧
      (weight [m.appId, m.instanceId] = weight [a, i] → Plain a ∧ Plain i ∧
        (m.appId, m.instanceId) = routeParams (encode a) (encode i)) := by
  have hbw := hb.append plainBase_workflows
  have hq := isQuery_storeQuery s
  obtain ⟨path', hmem, pre, x, y, n, hseg, hx, hy, hpre, hparams⟩ := hr.sound _ _ _ h
  obtain ⟨hle, hsame⟩ := length_rewriting hmem
  obtain ⟨t', rfl⟩ : ∃ t', path' = '/' :: t' := by
    rw [detailBase_eq] at hmem
    exact rewriting_head (by simp [opening]) (by simp [opening]) hmem
  rw [tail_baseText] at hseg
  -- the bytes on both sides
  have hw := weight_segments_le (t := opening base ++ t') hq
  rw [hseg, length_opening hb] at hw
  have hwpre := weight_of_sameText hpre
  have hids : (percentDecode (detailBase a i)).length =
      weight ["workflows".toList] + weight [a, i] := by
    rw [detailBase_eq, percentDecode_plain (by simp), List.length_append, Nat.add_comm]
    exact length_opening_ids plainBase_workflows a i
  have hpath : (percentDecode ('/' :: t')).length = 1 + (percentDecode t').length := by
    rw [percentDecode_plain (by simp), List.length_append]
    rfl
  have hbound : (percentDecode m.appId).length ≤ (percentDecode x).length ∧
      (percentDecode m.instanceId).length ≤ (percentDecode y).length := by
    have := routeParams_bound x y
    rw [← hparams] at this
    exact this
  have hrep : weight (List.replicate n []) = n := by simp [weight, percentDecode]
  simp only [weight_append, weight_cons, weight_nil, hrep] at hw hwpre hids ⊢
  refine ⟨by omega, fun heq => ?_⟩
  obtain rfl : n = 0 := by omega
  rw [List.replicate_zero] at hseg
  have hlen : pre.length = (base ++ ["workflows".toList]).length := by
    have := congrArg List.length hpre
    simpa using this
  have hread : ∀ j, '/' :: t' = detailBase a j →
      (percentDecode j).length = (percentDecode i).length →
      Plain a ∧ Plain j ∧ [x, y] = [encode a, encode j] := by
    intro j hj hjlen
    rw [detailBase_eq] at hj
    obtain rfl : t' = opening ["workflows".toList] ++ (a ++ '/' :: j) := (List.cons.inj hj).2
    rw [← List.append_assoc (opening base), ← opening_append] at hseg
    have hcount : (pre ++ [x, y]).length = (base ++ ["workflows".toList]).length + 2 := by
      rw [List.length_append, hlen]
      rfl
    have hne : ∀ r ∈ (pre ++ [x, y]).drop (base ++ ["workflows".toList]).length, r ≠ [] := by
      rw [← hlen, List.drop_left]
      intro r hmr
      rcases List.mem_cons.mp hmr with rfl | hmr
      · exact hx
      · rw [List.mem_singleton.mp hmr]
        exact hy
    have hweight : weight (pre ++ [x, y]) =
        weight (base ++ ["workflows".toList]) + weight [a, j] := by
      simp only [weight_append, weight_cons, weight_nil]
      omega
    obtain ⟨ha, hpj, -, hS⟩ := plain_of_segments hbw hq hseg hcount hne hweight
    exact ⟨ha, hpj, (List.append_inj hS hlen).2⟩
  -- the rewriting left the path alone or encoded its last blank
  have hcase : '/' :: t' = detailBase a i ∨
      ∃ j, i = j ++ [' '] ∧ '/' :: t' = detailBase a (j ++ "%20".toList) := by
    rcases hsame (by omega) with hsame | hsame
    · exact .inl hsame
    · rw [hsame]
      exact encodeLast_detailBase a i
  rcases hcase with hcase | ⟨j, rfl, hcase⟩
  · obtain ⟨ha, hi, hxy⟩ := hread i hcase rfl
    cases hxy
    exact ⟨ha, hi, hparams⟩
  · have hlen20 : (percentDecode (j ++ "%20".toList)).length =
        (percentDecode (j ++ [' '])).length := by
      rw [← percentDecode_encode, encode_blank, percentDecode_encode]
    obtain ⟨ha, hi, hxy⟩ := hread _ hcase hlen20
    rw [encode_blank] at hxy
    cases hxy
    exact ⟨ha, plain_of_encodeLast hi, hparams⟩

end Router

/-! ## 8. The request -/

/-- The segments before the ids in a request. -/
def apiPath (base : List Str) : List Str := base ++ ["api".toList, "workflows".toList]

theorem apiPrefix_eq (base : List Str) : apiPrefix base = '/' :: opening (apiPath base) := by
  have hword : "/api".toList ++ "/workflows/".toList =
      '/' :: opening ["api".toList, "workflows".toList] := by decide
  unfold apiPrefix apiUrl apiPath
  rw [List.append_assoc, hword, baseText_append, opening_append]

theorem apiPrefix_append (base : List Str) (a i : Str) :
    apiPrefix base ++ (a ++ '/' :: i) = baseText (apiPath base ++ [a, i]) := by
  have hids : baseText [a, i] = '/' :: (a ++ '/' :: i) := by simp [baseText]
  rw [apiPrefix_eq, List.cons_append, ← baseText_append, ← hids]
  exact List.flatMap_append.symm

theorem useWorkflow_eq_some_iff {base : List Str} {m : RouteMatch} {p : Str} :
    useWorkflow base m = some p ↔ m.appId ≠ [] ∧ m.instanceId ≠ [] ∧
      p = baseText (segments (opening (apiPath base) ++ (m.appId ++ '/' :: m.instanceId) ++
        storeQuery m.store)) := by
  have hurl : (apiUrl base ("/workflows/".toList ++ m.appId ++ '/' :: m.instanceId ++
      storeQuery m.store)).tail =
      opening (apiPath base) ++ (m.appId ++ '/' :: m.instanceId) ++ storeQuery m.store := by
    have hsplit : apiUrl base ("/workflows/".toList ++ m.appId ++ '/' :: m.instanceId ++
        storeQuery m.store) =
        apiPrefix base ++ (m.appId ++ '/' :: m.instanceId) ++ storeQuery m.store := by
      unfold apiPrefix apiUrl
      rw [← List.append_assoc _ m.appId, ← List.append_assoc _ _ (storeQuery m.store),
        List.append_assoc _ _ m.appId, ← List.append_assoc _ _ ('/' :: m.instanceId)]
    rw [hsplit, apiPrefix_eq]
    rfl
  unfold useWorkflow
  by_cases h : m.appId = [] ∨ m.instanceId = []
  · rw [if_pos h]
    refine ⟨nofun, fun h' => ?_⟩
    rcases h with h | h
    · exact absurd h h'.1
    · exact absurd h h'.2.1
  · rw [if_neg h]
    dsimp only
    rw [hurl, Option.some.injEq]
    exact ⟨fun he => ⟨fun ha => h (.inl ha), fun hi => h (.inr hi), he.symm⟩,
      fun he => he.2.2.symm⟩

theorem length_baseText (S : List Str) : (percentDecode (baseText S)).length = weight S := by
  have hone : ∀ t : Str, (percentDecode ('/' :: t)).length = 1 + (percentDecode t).length :=
    fun t => by
      rw [percentDecode_plain (by simp), List.length_append]
      rfl
  induction S with
  | nil => rfl
  | cons s S ih =>
      show (percentDecode ('/' :: (s ++ baseText S))).length = _
      rw [hone]
      cases S with
      | nil =>
          show 1 + (percentDecode (s ++ [])).length = _
          rw [List.append_nil, weight_cons, weight_nil]
          omega
      | cons r S =>
          show 1 + (percentDecode (s ++ '/' :: (r ++ baseText S))).length = _
          rw [percentDecode_append_cons (by decide), List.length_append, weight_cons]
          have : (percentDecode ('/' :: (r ++ baseText S))).length = weight (r :: S) := ih
          omega

/-- Segments without slashes are read off their path. -/
theorem splitOn_baseText {s : Str} {S : List Str} (h : ∀ r ∈ s :: S, '/' ∉ r) :
    (s ++ baseText S).splitOn '/' = s :: S := by
  induction S generalizing s with
  | nil =>
      show (s ++ []).splitOn '/' = [s]
      rw [List.append_nil, List.splitOn_eq_singleton (h s List.mem_cons_self)]
  | cons r S ih =>
      show (s ++ '/' :: (r ++ baseText S)).splitOn '/' = s :: r :: S
      rw [List.splitOn_append_cons_self, List.splitOn_eq_singleton (h s List.mem_cons_self),
        ih fun t ht => h t (List.mem_cons_of_mem s ht)]
      rfl

theorem baseText_inj {S T : List Str} (hS : ∀ s ∈ S, '/' ∉ s) (hT : ∀ s ∈ T, '/' ∉ s)
    (h : baseText S = baseText T) : S = T := by
  cases S with
  | nil =>
      cases T with
      | nil => rfl
      | cons t T => cases h
  | cons s S =>
      cases T with
      | nil => cases h
      | cons t T =>
          have htail : s ++ baseText S = t ++ baseText T := (List.cons.inj h).2
          rw [← splitOn_baseText hS, htail, splitOn_baseText hT]

/-! ## 9. Bytes and escapes of the server -/

theorem slash_mem_utf8 {s : Str} : 0x2f ∈ utf8 s ↔ '/' ∈ s := by
  constructor
  · intro h
    obtain ⟨c, hc, hb⟩ := List.mem_flatMap.mp h
    have hslash : c.toNat = 0x2f := by
      rcases toNat_of_mem_utf8EncodeChar hb with ⟨-, he⟩ | ⟨-, hle⟩
      · exact he.symm
      · exact absurd hle (by decide)
    have : c = '/' := by rw [← Char.ofNat_toNat c, hslash]
    exact this ▸ hc
  · intro h
    exact List.mem_flatMap.mpr ⟨'/', h, by decide⟩

/-- The path of a request with these ids, in bytes. -/
theorem utf8_requestText (base : List Str) (a i : Str) :
    utf8 (apiPrefix base) ++ utf8 a ++ 0x2f :: utf8 i =
      utf8 (apiPrefix base ++ (a ++ '/' :: i)) := by
  have hslash : utf8 ('/' :: i) = 0x2f :: utf8 i := by
    rw [utf8_cons]
    rfl
  rw [Url.utf8_append, Url.utf8_append, hslash, List.append_assoc]

/-- What a browser leaves alone in a path and Go escapes, and the percent sign. -/
def contested : List Char := "!'()*[]|%".toList

theorem escapePath_append (u v : Octets) : escapePath (u ++ v) = escapePath u ++ escapePath v :=
  List.flatMap_append

/-- **Browser and server escape every other character alike.** -/
theorem escapePath_utf8EncodeChar {c : Char} (h : c ∉ contested) (hb : c ≠ '\\') :
    escapePath (String.utf8EncodeChar c) = encodeChar c := by
  by_cases hlt : c.toNat < 0x80
  · have hall : ∀ i : Fin 0x80, Char.ofNat i ∉ contested → Char.ofNat i ≠ '\\' →
        escapePath (String.utf8EncodeChar (Char.ofNat i)) = encodeChar (Char.ofNat i) := by
      decide +kernel
    have := hall ⟨c.toNat, hlt⟩
    rw [Char.ofNat_toNat] at this
    exact this h hb
  · have hkeep : keeps c = false := by
      unfold keeps
      simp only [Bool.and_eq_false_iff, decide_eq_false_iff_not]
      left
      right
      omega
    unfold encodeChar escapePath
    rw [if_neg (by simp [hkeep])]
    refine List.flatMap_congr fun b hm => if_neg ?_
    have : 0x80 ≤ b.toNat := by
      rcases toNat_of_mem_utf8EncodeChar hm with ⟨hl, -⟩ | ⟨-, hle⟩
      · exact absurd hl hlt
      · exact hle
    unfold goKeeps
    simp only [Bool.and_eq_true, decide_eq_true_eq, not_and]
    omega

/-- A contested character other than `%` is not escaped by the browser, and is by the server. -/
theorem escape_contested {c : Char} (h : c ∈ contested) (hp : c ≠ '%') :
    encodeChar c = [c] ∧ (escapePath (String.utf8EncodeChar c)).head? = some '%' := by
  have hall : ∀ c ∈ contested, c ≠ '%' →
      encodeChar c = [c] ∧ (escapePath (String.utf8EncodeChar c)).head? = some '%' :=
    Str.forall_mem_of_all (by decide)
  exact hall c h hp

theorem escapePath_utf8_of_uncontested {s : Str} (h : ∀ c ∈ s, c ∉ contested ∧ c ≠ '\\') :
    escapePath (utf8 s) = encode s := by
  induction s with
  | nil => rfl
  | cons c s ih =>
      have hc := h c List.mem_cons_self
      rw [utf8_cons, escapePath_append, encode_cons, escapePath_utf8EncodeChar hc.1 hc.2,
        ih fun d hd => h d (List.mem_cons_of_mem c hd)]

theorem uncontested_of_escapePath {s : Str} (hp : '%' ∉ s) (hb : '\\' ∉ s)
    (h : escapePath (utf8 s) = encode s) : ∀ c ∈ s, c ∉ contested := by
  induction s with
  | nil => exact fun c hc => absurd hc List.not_mem_nil
  | cons c s ih =>
      have hcp : c ≠ '%' := fun he => hp (he ▸ List.mem_cons_self)
      have hcb : c ≠ '\\' := fun he => hb (he ▸ List.mem_cons_self)
      rw [utf8_cons, escapePath_append, encode_cons] at h
      by_cases hc : c ∈ contested
      · obtain ⟨henc, hesc⟩ := escape_contested hc hcp
        rw [henc] at h
        have hhead := congrArg List.head? h
        rw [List.head?_append, hesc] at hhead
        exact absurd (Option.some.inj hhead).symm hcp
      · rw [escapePath_utf8EncodeChar hc hcb] at h
        intro d hd
        rcases List.mem_cons.mp hd with rfl | hd
        · exact hc
        · exact ih (fun hm => hp (List.mem_cons_of_mem c hm))
            (fun hm => hb (List.mem_cons_of_mem c hm)) (List.append_cancel_left h) d hd

/-! ## 10. Which rows are addressed -/

/-- **The server decodes the path**: nothing in it that browser and server escape differently. -/
def Decoded (store a i : Str) : Prop := EndsWell store i ∧ ∀ c, c ∈ a ∨ c ∈ i → c ∉ contested

/-- **The server takes the path as it stands**, because it would have escaped it differently, and
    the browser writes what the router decoded as it stood in the link. -/
def Verbatim (store a i : Str) : Prop :=
  let params := routeParams a i
  Plain params.1 ∧ Plain params.2 ∧ EndsWell store params.2 ∧
    encode params.1 = a ∧ encode params.2 = i ∧
    ∃ v, unescape (a ++ '/' :: i) = some v ∧ escapePath v ≠ a ++ '/' :: i

/-- **The rows whose workflow is found.** -/
def Addressable (store a i : Str) : Prop :=
  Plain a ∧ Plain i ∧ (Decoded store a i ∨ Verbatim store a i)

theorem keeps_of_mem_encode {s : Str} {c : Char} (h : c ∈ encode s) : keeps c = true := by
  obtain ⟨d, -, hd⟩ := List.mem_flatMap.mp h
  unfold encodeChar at hd
  split at hd
  · rw [List.mem_singleton.mp hd]
    assumption
  · obtain ⟨b, -, hb⟩ := List.mem_flatMap.mp hd
    have hlt := b.toNat_lt
    have hhex : ∀ {n : Nat}, n < 16 → keeps (upperHex n) = true := fun hn =>
      keeps_of_unhex (unhex_upperHex hn)
    rcases List.mem_cons.mp hb with rfl | hb
    · rfl
    · rcases List.mem_cons.mp hb with rfl | hb
      · exact hhex (by omega)
      · rw [List.mem_singleton.mp hb]
        exact hhex (by omega)

theorem isBlank_of_keeps {c : Char} (h : keeps c = true) : isBlank c = false := by
  unfold keeps at h
  simp only [Bool.and_eq_true, decide_eq_true_eq] at h
  exact decide_eq_false (by omega)

theorem encode_encode (s : Str) : encode (encode s) = encode s :=
  encode_of_keeps fun _ hc => keeps_of_mem_encode hc

/-- Ids without `%` come out of the router as they went in. -/
theorem routeParams_encode {a i : Str} (ha : '%' ∉ a) (hi : '%' ∉ i) :
    routeParams (encode a) (encode i) = (a, i) := by
  have hdec : ∀ {s : Str}, '%' ∉ s → decodeURIComponent (encode s) = some s := fun hs =>
    decodeURIComponent_of_unescape (by rw [unescape_encode, Url.unescape_of_not_mem hs])
  unfold routeParams
  rw [hdec ha, hdec hi]
  dsimp only
  rw [slashBack_of_not_mem ha, slashBack_of_not_mem hi]

theorem joinSlashes_append {s : Str} (h : '/' ∉ s) (t : Str) :
    joinSlashes (s ++ t) = s ++ joinSlashes t := by
  induction s with
  | nil => rfl
  | cons c s ih =>
      have hc : ¬ (c = '/' ∧ (s ++ t).head? = some '/') := fun hc => h (hc.1 ▸ List.mem_cons_self)
      rw [List.cons_append, joinSlashes, if_neg hc, ih fun hm => h (List.mem_cons_of_mem c hm)]
      rfl

theorem joinSlashes_slash {s : Str} (h : '/' ∉ s) (hne : s ≠ []) (t : Str) :
    joinSlashes ('/' :: (s ++ t)) = '/' :: (s ++ joinSlashes t) := by
  obtain ⟨c, s, rfl⟩ := List.exists_cons_of_ne_nil hne
  rw [joinSlashes, if_neg, joinSlashes_append h]
  rintro ⟨-, hc⟩
  exact h (Option.some.inj hc ▸ List.mem_cons_self)

theorem joinSlashes_detailBase {a i : Str} (ha : Plain a) (hi : Plain i) :
    joinSlashes (detailBase a i) = detailBase a i := by
  have hform : detailBase a i = '/' :: ("workflows".toList ++ '/' :: (a ++ '/' :: (i ++ []))) := by
    have hword : "/workflows/".toList = '/' :: ("workflows".toList ++ ['/']) := by decide
    unfold detailBase
    rw [hword, List.append_nil, List.append_assoc, List.cons_append, List.append_assoc]
    rfl
  rw [hform, joinSlashes_slash (by decide) (by decide), joinSlashes_slash ha.not_mem.1 ha.1,
    joinSlashes_slash hi.not_mem.1 hi.1]
  rfl

/-- The link of plain ids has no query of its own. -/
theorem no_query_in_detailBase {a i : Str} (ha : Plain a) (hi : Plain i) :
    '?' ∉ detailBase a i ∧ '#' ∉ detailBase a i := by
  have hmem : ∀ c ∈ detailBase a i, c ∈ "/workflows/".toList ∨ c ∈ a ∨ c ∈ i := fun c hc => by
    rcases List.mem_append.mp hc with hc | hc
    · exact (List.mem_append.mp hc).imp_right .inl
    · rcases List.mem_cons.mp hc with rfl | hc
      · exact .inl (by decide)
      · exact .inr (.inr hc)
  constructor
  · exact fun h => (hmem _ h).elim (by decide) fun h => h.elim ha.not_mem.2.1 hi.not_mem.2.1
  · exact fun h => (hmem _ h).elim (by decide) fun h => h.elim ha.not_mem.2.2 hi.not_mem.2.2

/-- The characters before the ids are not contested. -/
theorem uncontested_apiPrefix {base : List Str} (hb : PlainBase base) :
    ∀ c ∈ apiPrefix base, c ∉ contested ∧ c ≠ '\\' := by
  have hword : ∀ d ∈ '\\' :: contested, ¬ (d.isAlphanum = true ∨ d = '-' ∨ d = '_') ∧ d ≠ '/' :=
    Str.forall_mem_of_all (by decide)
  intro c hc
  rw [apiPrefix_eq] at hc
  have hcase : (c.isAlphanum = true ∨ c = '-' ∨ c = '_') ∨ c = '/' := by
    rcases List.mem_cons.mp hc with rfl | hc
    · exact .inr rfl
    · exact mem_opening (hb.append plainBase_api) hc
  have hno : c ∉ '\\' :: contested := fun hm => hcase.elim (hword c hm).1 (hword c hm).2
  exact ⟨fun hm => hno (List.mem_cons_of_mem _ hm), fun he => hno (he ▸ List.mem_cons_self)⟩

theorem encode_apiPrefix {base : List Str} (hb : PlainBase base) :
    encode (apiPrefix base) = apiPrefix base := by
  refine encode_of_keeps fun c hc => ?_
  rw [apiPrefix_eq] at hc
  rcases List.mem_cons.mp hc with rfl | hc
  · rfl
  · rcases mem_opening (hb.append plainBase_api) hc with hc | rfl
    · exact (plain_of_word hc).1
    · rfl

theorem unescape_append_of_not_mem {s : Str} (h : '%' ∉ s) (t : Str) :
    unescape (s ++ t) = (unescape t).map (utf8 s ++ ·) := by
  induction s with
  | nil => simp [utf8]
  | cons c s ih =>
      rw [List.cons_append, Url.unescape_cons_of_ne fun he => h (he ▸ List.mem_cons_self),
        ih fun hm => h (List.mem_cons_of_mem c hm), Option.map_map, utf8_cons]
      congr 1
      funext u
      simp

theorem percent_not_mem_apiPrefix {base : List Str} (hb : PlainBase base) :
    '%' ∉ apiPrefix base := fun hm => (uncontested_apiPrefix hb _ hm).1 (by decide)

theorem length_utf8_apiPrefix {base : List Str} (hb : PlainBase base) :
    (utf8 (apiPrefix base)).length = weight (apiPath base) + 1 := by
  have hapi : PlainBase (apiPath base) := hb.append plainBase_api
  rw [← percentDecode_of_unescape (Url.unescape_of_not_mem (percent_not_mem_apiPrefix hb)),
    apiPrefix_eq, percentDecode_plain (by simp), List.length_append,
    ← List.append_nil (opening _), length_opening hapi, Nat.add_comm]
  rfl

theorem slash_mem_escapePath {bs : Octets} (h : '/' ∈ escapePath bs) : 0x2f ∈ bs := by
  obtain ⟨b, hb, hc⟩ := List.mem_flatMap.mp h
  have hall : ∀ n : Fin 256, '/' ∈ (if goKeeps (UInt8.ofNat n) then [Char.ofNat (UInt8.ofNat n).toNat]
      else escapeByte (UInt8.ofNat n)) → UInt8.ofNat n = 0x2f := by decide +kernel
  have := hall ⟨b.toNat, b.toNat_lt⟩
  rw [UInt8.ofNat_toNat] at this
  exact this hc ▸ hb

theorem escapePath_ne_nil {t : Str} (h : t ≠ []) : escapePath (utf8 t) ≠ [] := by
  intro he
  cases hb : utf8 t with
  | nil => exact h (utf8_injective hb)
  | cons b bs =>
      have hcons : escapePath (b :: bs) =
          (if goKeeps b then [Char.ofNat b.toNat] else escapeByte b) ++ escapePath bs :=
        List.flatMap_cons
      rw [hb, hcons] at he
      obtain ⟨hhead, -⟩ := List.append_eq_nil_iff.mp he
      split at hhead <;> cases hhead

/-- What a server decodes of a request: what stands behind the fixed part, decoded. -/
theorem unescape_request {base : List Str} (hb : PlainBase base) {x y : Str} {path : Octets}
    (h : unescape (apiPrefix base ++ (x ++ '/' :: y)) = some path) :
    ∃ v, unescape (x ++ '/' :: y) = some v ∧ path = utf8 (apiPrefix base) ++ v := by
  rw [unescape_append_of_not_mem (percent_not_mem_apiPrefix hb)] at h
  obtain ⟨v, hv, rfl⟩ := Option.map_eq_some_iff.mp h
  exact ⟨v, hv, rfl⟩

/-- What the router made of two ids has complete escapes only if the ids have. -/
theorem unescape_routeParams {a i : Str}
    (hx : unescape (routeParams (encode a) (encode i)).1 ≠ none)
    (hy : unescape (routeParams (encode a) (encode i)).2 ≠ none) :
    unescape a ≠ none ∧ unescape i ≠ none := by
  unfold routeParams at hx hy
  split at hx
  · rename_i heqa heqi
    rw [← unescape_encode a, ← unescape_encode i, decodeURIComponent_some heqa,
      decodeURIComponent_some heqi]
    exact ⟨Option.some_ne_none _, Option.some_ne_none _⟩
  · rename_i hnone
    split at hy
    · exact absurd ‹_› (hnone _ _ ‹_›)
    · rw [unescape_slashBack, unescape_encode] at hx hy
      exact ⟨hx, hy⟩

section Served

variable {base : List Str} {router : Str → Option RouteMatch}
  {chi : GoURL → Option (Octets × Octets)} (hb : PlainBase base) (hr : RouterDocs base router)
include hb hr

/-- Plain ids whose parameters are plain are asked for in encoded form. -/
theorem request_of_plain {s a i : Str} (ha : Plain a) (hi : Plain i) (hend : EndsWell s i)
    (hx : Plain (routeParams (encode a) (encode i)).1)
    (hy : Plain (routeParams (encode a) (encode i)).2)
    (hyend : EndsWell s (routeParams (encode a) (encode i)).2) :
    served base router chi s a i =
      (setPath (apiPrefix base ++ (encode (routeParams (encode a) (encode i)).1 ++
        '/' :: encode (routeParams (encode a) (encode i)).2))).bind chi := by
  have hne : ∀ {t : Str}, Plain t → encode t ≠ [] := fun {t} ht he => by
    have hlen := length_percentDecode_cons_pos
    obtain ⟨c, t, rfl⟩ := List.exists_cons_of_ne_nil ht.1
    have := hlen c t
    rw [← percentDecode_encode, he] at this
    cases this
  have hlink : segments (baseText base ++ detailBase a i ++ storeQuery s).tail =
      base ++ ["workflows".toList, encode a, encode i] := by
    rw [detailBase_eq, tail_baseText, ← List.append_assoc (opening base), ← opening_append,
      segments_of_plain (hb.append plainBase_workflows) (isQuery_storeQuery s) ha hi
        fun hq => hend (storeQuery_eq_nil.mp hq)]
    rw [List.append_assoc]
    rfl
  have hlast : s = [] → encodeLast (detailBase a i) = detailBase a i := fun hs => by
    rcases encodeLast_detailBase a i with h | ⟨j, rfl, -⟩
    · exact h
    · exact absurd (hend hs ' ' (by simp)) (by decide)
  obtain ⟨st, hst⟩ := hr.complete (detailBase a i) s (encode a) (encode i)
    (joinSlashes_detailBase ha hi) hlast hlink (hne ha) (hne hi)
  have hnot := no_query_in_detailBase ha hi
  obtain rfl : st = s := hr.store _ _ _ hnot.1 hnot.2 hst
  generalize routeParams (encode a) (encode i) = params at hst hx hy hyend ⊢
  have hseg : segments (opening (apiPath base) ++ (params.1 ++ '/' :: params.2) ++ storeQuery st) =
      apiPath base ++ [encode params.1, encode params.2] :=
    segments_of_plain (hb.append plainBase_api) (isQuery_storeQuery st) hx hy
      fun hq => hyend (storeQuery_eq_nil.mp hq)
  have huse : useWorkflow base ⟨params.1, params.2, st⟩ =
      some (apiPrefix base ++ (encode params.1 ++ '/' :: encode params.2)) :=
    useWorkflow_eq_some_iff.mpr ⟨hx.1, hy.1, by rw [apiPrefix_append, ← hseg]⟩
  unfold served detailPath
  rw [hst, Option.bind_some, huse, Option.bind_some]

variable (hc : ChiDocs base chi)
include hc

/-- **Addressable rows are served.** -/
theorem served_of_addressable {s a i : Str} (h : Addressable s a i) :
    served base router chi s a i = some (utf8 a, utf8 i) := by
  obtain ⟨ha, hi, hdec | hver⟩ := h
  · obtain ⟨hend, hchars⟩ := hdec
    have hpa : '%' ∉ a := fun hm => hchars _ (.inl hm) (by decide)
    have hpi : '%' ∉ i := fun hm => hchars _ (.inr hm) (by decide)
    have hparams := routeParams_encode hpa hpi
    rw [request_of_plain hb hr ha hi hend (by rwa [hparams]) (by rwa [hparams])
      (by rwa [hparams]), hparams]
    -- the path that is sent is the ids' text, encoded
    have hpath : apiPrefix base ++ (encode a ++ '/' :: encode i) =
        encode (apiPrefix base ++ (a ++ '/' :: i)) := by
      rw [encode_append, encode_append, encode_apiPrefix hb, encode_cons_of_keeps (by decide)]
    have hclean : ∀ c ∈ apiPrefix base ++ (a ++ '/' :: i), c ∉ contested ∧ c ≠ '\\' := by
      intro c hc
      rcases List.mem_append.mp hc with hc | hc
      · exact uncontested_apiPrefix hb c hc
      · have hsep : c ∈ a ∨ c ∈ i → c ≠ '\\' := by
          rintro hm rfl
          exact hm.elim (fun hm => absurd (ha.2.1 _ hm).2.2 (by decide))
            fun hm => absurd (hi.2.1 _ hm).2.2 (by decide)
        rcases List.mem_append.mp hc with hc | hc
        · exact ⟨hchars c (.inl hc), hsep (.inl hc)⟩
        · rcases List.mem_cons.mp hc with rfl | hc
          · decide
          · exact ⟨hchars c (.inr hc), hsep (.inr hc)⟩
    have hnot : '%' ∉ apiPrefix base ++ (a ++ '/' :: i) := fun hm =>
      (hclean _ hm).1 (by decide)
    unfold setPath
    rw [hpath, unescape_encode, Url.unescape_of_not_mem hnot, Option.map_some, Option.bind_some,
      escapePath_utf8_of_uncontested hclean, if_pos rfl]
    refine hc.complete _ _ _ ?_ ?_ (mt slash_mem_utf8.mp ha.not_mem.1)
      (mt slash_mem_utf8.mp hi.not_mem.1) (utf8_requestText base a i).symm
    · exact fun he => ha.1 (utf8_injective he)
    · exact fun he => hi.1 (utf8_injective he)
  · obtain ⟨hx, hy, hyend, hea, hei, v, hv, hne⟩ := hver
    have hfix : encode a = a ∧ encode i = i := by
      constructor
      · rw [← hea, encode_encode]
      · rw [← hei, encode_encode]
    have hend : EndsWell s i := fun _ c hc => by
      rw [← hei] at hc
      exact isBlank_of_keeps (keeps_of_mem_encode (List.mem_of_getLast? hc))
    rw [request_of_plain hb hr ha hi hend (by rwa [hfix.1, hfix.2])
      (by rwa [hfix.1, hfix.2]) (by rwa [hfix.1, hfix.2]), hfix.1, hfix.2, hea, hei]
    have hnot : '%' ∉ apiPrefix base := fun hm => (uncontested_apiPrefix hb _ hm).1 (by decide)
    have hraw : escapePath (utf8 (apiPrefix base) ++ v) ≠ apiPrefix base ++ (a ++ '/' :: i) := by
      rw [escapePath_append, escapePath_utf8_of_uncontested (uncontested_apiPrefix hb),
        encode_apiPrefix hb]
      exact fun he => hne (List.append_cancel_left he)
    unfold setPath
    rw [unescape_append_of_not_mem hnot, hv, Option.map_some, Option.map_some, Option.bind_some,
      if_neg hraw]
    refine hc.complete _ _ _ ?_ ?_ (mt slash_mem_utf8.mp ha.not_mem.1)
      (mt slash_mem_utf8.mp hi.not_mem.1) ?_
    · exact fun he => ha.1 (utf8_injective he)
    · exact fun he => hi.1 (utf8_injective he)
    · rw [utf8_requestText]
      unfold GoURL.routePath
      rw [if_neg]
      rw [apiPrefix_eq]
      exact List.cons_ne_nil _ _

/-- **Rows that are served are addressable.** -/
theorem addressable_of_served {s a i : Str}
    (h : served base router chi s a i = some (utf8 a, utf8 i)) : Addressable s a i := by
  obtain ⟨m, hm, h⟩ := Option.bind_eq_some_iff.mp h
  obtain ⟨p, hp, h⟩ := Option.bind_eq_some_iff.mp h
  obtain ⟨u, hu, hchi⟩ := Option.bind_eq_some_iff.mp h
  obtain ⟨-, -, rfl⟩ := useWorkflow_eq_some_iff.mp hp
  obtain ⟨hroute, hsa, hsi⟩ := hc.sound _ _ _ hchi
  have hapi : PlainBase (apiPath base) := hb.append plainBase_api
  have hq := isQuery_storeQuery m.store
  obtain ⟨hle, hparams⟩ := router_bound hb hr hm
  have hw := weight_segments_le (t := opening (apiPath base) ++ (m.appId ++ '/' :: m.instanceId)) hq
  rw [length_opening_ids hapi] at hw
  generalize hS : segments (opening (apiPath base) ++ (m.appId ++ '/' :: m.instanceId) ++
    storeQuery m.store) = S at hp hu hw
  have hslash : ∀ r ∈ S, '/' ∉ r := fun r hr => slash_not_mem_segments (hS ▸ hr)
  obtain ⟨path, hpath, rfl⟩ := Option.map_eq_some_iff.mp hu
  have hlen : path.length = weight S := by
    rw [← percentDecode_of_unescape hpath, length_baseText]
  rw [utf8_requestText] at hroute
  unfold GoURL.routePath at hroute
  -- once the bytes are accounted for, everything was read as it was written
  have hread : ∀ r₁ r₂ : Str, S = apiPath base ++ [r₁, r₂] →
      (a ≠ [] → r₁ ≠ []) → (i ≠ [] → r₂ ≠ []) →
      weight S = weight (apiPath base) + weight [a, i] →
      Plain a ∧ Plain i ∧ (m.appId, m.instanceId) = routeParams (encode a) (encode i) ∧
        Plain m.appId ∧ Plain m.instanceId ∧ EndsWell s m.instanceId ∧
        encode m.appId = r₁ ∧ encode m.instanceId = r₂ := by
    intro r₁ r₂ hr₁₂ hne₁ hne₂ hweight
    obtain ⟨ha, hi, heq⟩ := hparams (by omega)
    have hdrop : ∀ r ∈ S.drop (apiPath base).length, r ≠ [] := by
      rw [hr₁₂, List.drop_left]
      intro r hr
      rcases List.mem_cons.mp hr with rfl | hr
      · exact hne₁ ha.1
      · rw [List.mem_singleton.mp hr]
        exact hne₂ hi.1
    obtain ⟨hx, hy, hend, hform⟩ := plain_of_segments hapi hq hS
      (by rw [hr₁₂, List.length_append]; rfl) hdrop (by omega)
    have hnot := no_query_in_detailBase ha hi
    have hstore : m.store = s := hr.store _ _ _ hnot.1 hnot.2 hm
    have hends := List.append_cancel_left (hr₁₂.symm.trans hform)
    cases hends
    exact ⟨ha, hi, heq, hx, hy, fun hs => hend (storeQuery_eq_nil.mpr (hstore.trans hs)),
      rfl, rfl⟩
  by_cases hraw : escapePath path = baseText S
  · -- the server decodes the path
    rw [if_pos hraw, if_pos rfl] at hroute
    change path = _ at hroute
    have hS' : S = apiPath base ++ [escapePath (utf8 a), escapePath (utf8 i)] := by
      refine baseText_inj hslash (fun r hr => ?_) ?_
      · rcases List.mem_append.mp hr with hr | hr
        · exact fun hm => absurd (plain_of_base hapi hr hm) (by decide)
        · rcases List.mem_cons.mp hr with rfl | hr
          · exact mt slash_mem_escapePath hsa
          · exact List.mem_singleton.mp hr ▸ mt slash_mem_escapePath hsi
      · rw [← hraw, hroute, ← apiPrefix_append, ← utf8_requestText, escapePath_append,
          escapePath_append, escapePath_utf8_of_uncontested (uncontested_apiPrefix hb),
          encode_apiPrefix hb, List.append_assoc]
        rfl
    have hbytes : path.length =
        weight (apiPath base) + ((utf8 a).length + 1 + ((utf8 i).length + 1)) := by
      rw [hroute, ← utf8_requestText, List.length_append, List.length_append, List.length_cons,
        length_utf8_apiPrefix hb]
      omega
    have hlea := length_percentDecode_le a
    have hlei := length_percentDecode_le i
    have hids : weight [a, i] = (percentDecode a).length + 1 + ((percentDecode i).length + 1) := rfl
    obtain ⟨ha, hi, heq, hx, hy, hend, hea, hei⟩ :=
      hread _ _ hS' escapePath_ne_nil escapePath_ne_nil (by omega)
    rw [hS', ← hea, ← hei, ← apiPrefix_append] at hpath
    obtain ⟨v, hv, -⟩ := unescape_request hb hpath
    have hcomplete : ¬ (unescape (encode m.appId) = none ∨ unescape (encode m.instanceId) = none) :=
      fun h => absurd (Url.unescape_append_slash_eq_none.mpr h) (by simp [hv])
    rw [unescape_encode, unescape_encode, not_or] at hcomplete
    obtain ⟨hxa, hyi⟩ : m.appId = (routeParams (encode a) (encode i)).1 ∧
        m.instanceId = (routeParams (encode a) (encode i)).2 :=
      ⟨congrArg Prod.fst heq, congrArg Prod.snd heq⟩
    rw [hxa, hyi] at hcomplete
    obtain ⟨hua, hui⟩ := unescape_routeParams hcomplete.1 hcomplete.2
    have hpa : '%' ∉ a := fun hm => absurd (length_percentDecode_lt hua hm) (by omega)
    have hpi : '%' ∉ i := fun hm => absurd (length_percentDecode_lt hui hm) (by omega)
    rw [routeParams_encode hpa hpi] at hxa hyi
    rw [hxa] at hea
    rw [hyi] at hei hend
    have hback : ∀ {t : Str}, Plain t → '\\' ∉ t := fun ht hm =>
      absurd (ht.2.1 _ hm).2.2 (by decide)
    refine ⟨ha, hi, .inl ⟨hend, fun c hc => hc.elim ?_ ?_⟩⟩
    · exact uncontested_of_escapePath hpa (hback ha) hea.symm c
    · exact uncontested_of_escapePath hpi (hback hi) hei.symm c
  · -- the server takes it as it stands
    have hne : baseText S ≠ [] := fun he => hraw (by
      rw [he] at hpath ⊢
      cases hpath
      rfl)
    rw [if_neg hraw, if_neg hne] at hroute
    have htext : baseText S = apiPrefix base ++ (a ++ '/' :: i) := utf8_injective hroute
    have hS' : S = apiPath base ++ [a, i] := by
      refine baseText_inj hslash (fun r hr => ?_) (htext.trans (apiPrefix_append base a i))
      rcases List.mem_append.mp hr with hr | hr
      · exact fun hm => absurd (plain_of_base hapi hr hm) (by decide)
      · rcases List.mem_cons.mp hr with rfl | hr
        · exact fun hm => hsa (slash_mem_utf8.mpr hm)
        · exact List.mem_singleton.mp hr ▸ fun hm => hsi (slash_mem_utf8.mpr hm)
    obtain ⟨ha, hi, heq, hx, hy, hend, hea, hei⟩ :=
      hread a i hS' (fun h => h) (fun h => h) (by rw [hS', weight_append])
    have hfix : encode a = a ∧ encode i = i := by
      constructor
      · rw [← hea, encode_encode]
      · rw [← hei, encode_encode]
    rw [hfix.1, hfix.2] at heq
    rw [htext] at hpath hraw
    obtain ⟨v, hv, rfl⟩ := unescape_request hb hpath
    refine ⟨ha, hi, .inr ?_⟩
    unfold Verbatim
    rw [← heq]
    refine ⟨hx, hy, hend, hea, hei, v, hv, fun he => hraw ?_⟩
    rw [escapePath_append, escapePath_utf8_of_uncontested (uncontested_apiPrefix hb),
      encode_apiPrefix hb, he]

/-- **`Get` is called with the ids of a row exactly if the row is addressable.** -/
theorem row_served_iff (s a i : Str) :
    served base router chi s a i = some (utf8 a, utf8 i) ↔ Addressable s a i :=
  ⟨addressable_of_served hb hr hc, served_of_addressable hb hr hc⟩

end Served

/-! ## 11. A router and a mounted chi, at the root -/

/-- The value of `store` in a link. -/
def linkStore (link : Str) : Str :=
  match Url.cut '?' link with
  | (_, some query) => (decodeURIComponent (query.drop 6)).getD []
  | _ => []

/-- Two segments below `workflows`. -/
def plainRouter (link : Str) : Option RouteMatch :=
  match segments link.tail with
  | [w, x, y] =>
      if w = "workflows".toList ∧ x ≠ [] ∧ y ≠ [] then
        some ⟨(routeParams x y).1, (routeParams x y).2, linkStore link⟩
      else none
  | _ => none

theorem unescape_encodeURIComponent (s : Str) :
    unescape (encodeURIComponent s) = some (utf8 s) := by
  induction s with
  | nil => rfl
  | cons c s ih =>
      have hcons : encodeURIComponent (c :: s) =
          (if unreserved c then [c] else (String.utf8EncodeChar c).flatMap escapeByte) ++
            encodeURIComponent s := List.flatMap_cons
      rw [hcons]
      split
      · have hne : c ≠ '%' := by
          rintro rfl
          cases ‹unreserved '%' = true›
        rw [List.singleton_append, Url.unescape_cons_of_ne hne, ih]
        rfl
      · rw [unescape_escapeBytes, ih]
        rfl

theorem linkStore_append {path : Str} (h : '?' ∉ path) (s : Str) :
    linkStore (path ++ storeQuery s) = s := by
  unfold linkStore storeQuery
  split_ifs with hs
  · rw [List.append_nil, Url.cut_of_not_mem h, hs]
  · have hquery : "?store=".toList ++ encodeURIComponent s =
        '?' :: ("store=".toList ++ encodeURIComponent s) := rfl
    have hdrop : ("store=".toList ++ encodeURIComponent s).drop 6 = encodeURIComponent s := rfl
    rw [hquery, Url.cut_append_cons h]
    dsimp only
    rw [hdrop, decodeURIComponent_of_unescape (unescape_encodeURIComponent s)]
    rfl

theorem plainRouter_docs : RouterDocs [] plainRouter := by
  constructor
  · intro path s x y _ _ hseg hx hy
    refine ⟨linkStore (path ++ storeQuery s), ?_⟩
    unfold plainRouter
    have hseg' : segments (path ++ storeQuery s).tail = ["workflows".toList, x, y] := hseg
    rw [hseg']
    exact if_pos ⟨rfl, hx, hy⟩
  · intro path s m h
    unfold plainRouter at h
    split at h
    · rename_i w x y hseg
      split at h
      · rename_i hif
        cases h
        exact ⟨path, List.mem_cons_self, [w], x, y, 0, hseg, hif.2.1, hif.2.2,
          by rw [hif.1]; rfl, rfl⟩
      · cases h
    · cases h
  · intro path s m hq _ h
    unfold plainRouter at h
    split at h
    · split at h
      · cases h
        exact linkStore_append hq s
      · cases h
    · cases h

/-- The two parameters behind the prefix of the mounted router. -/
def plainChi (u : GoURL) : Option (Octets × Octets) :=
  if utf8 (apiPrefix []) <+: u.routePath then
    match (u.routePath.drop (utf8 (apiPrefix [])).length).splitOn 0x2f with
    | [x, y] => some (x, y)
    | _ => none
  else none

theorem plainChi_docs : ChiDocs [] plainChi := by
  constructor
  · intro u x y _ _ hx hy h
    unfold plainChi
    rw [h, List.append_assoc, if_pos (List.prefix_append ..), List.drop_left,
      List.splitOn_append_cons_self, List.splitOn_eq_singleton hx, List.splitOn_eq_singleton hy]
    rfl
  · intro u x y h
    unfold plainChi at h
    split at h
    · rename_i hpre
      obtain ⟨rest, hrest⟩ := hpre
      rw [← hrest, List.drop_left] at h
      split at h
      · rename_i x' y' hsplit
        cases h
        have hjoin : [0x2f].intercalate (rest.splitOn 0x2f) = rest := List.intercalate_splitOn _
        rw [hsplit] at hjoin
        have hmem : ∀ r ∈ rest.splitOn 0x2f, (0x2f : UInt8) ∉ r := fun r hr =>
          Path.not_mem_of_mem_splitOn hr
        rw [hsplit] at hmem
        refine ⟨?_, hmem x List.mem_cons_self, hmem y (List.mem_cons_of_mem _ List.mem_cons_self)⟩
        rw [← hrest, ← hjoin]
        simp
      · cases h
    · cases h

/-- The workflow `a b` of the app `shop` is found. -/
theorem row_served_iff_blank :
    served [] plainRouter plainChi [] "shop".toList "a b".toList =
      some (utf8 "shop".toList, utf8 "a b".toList) := by
  refine (row_served_iff (fun _ hs => absurd hs List.not_mem_nil) plainRouter_docs plainChi_docs
    [] "shop".toList "a b".toList).mpr ?_
  have hshop : Plain "shop".toList :=
    ⟨by decide, Str.forall_mem_of_all (by decide), by decide, by decide⟩
  have hab : Plain "a b".toList :=
    ⟨by decide, Str.forall_mem_of_all (by decide), by decide, by decide⟩
  have hchars : (∀ c ∈ "shop".toList, c ∉ contested) ∧ ∀ c ∈ "a b".toList, c ∉ contested :=
    ⟨Str.forall_mem_of_all (by decide), Str.forall_mem_of_all (by decide)⟩
  refine ⟨hshop, hab, .inl ⟨?_, fun c hc => hc.elim (hchars.1 c) (hchars.2 c)⟩⟩
  intro _ c hc
  cases hc
  rfl

/-- The workflow `order/42` of the app `shop` is not found: its link has a segment too many. -/
theorem row_not_addressed :
    served [] plainRouter plainChi [] "shop".toList "order/42".toList ≠
      some (utf8 "shop".toList, utf8 "order/42".toList) := by
  decide +kernel

end DevDashboard.Web.Detail
