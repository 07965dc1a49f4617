/-
  File:      DevDashboard/State/Classify.lean
  Subject:   THE KEYS OF STATE RECORDS (`pkg/state/classify.go`, `pkg/state/pattern.go`).

  A record of an app is kept under `<appId>||<key>`. `classify` cuts a stored key at its leftmost
  delimiter; `listPattern` asks the backend for the keys of an app.

  * `sepFree_iff` -- the leftmost delimiter stands behind an app-id exactly if the app-id has no
    delimiter and does not end in a bar;
  * `classify_composeKey` -- then `classify` gives back what was composed;
  * `classify_appID_iff` -- the keys that are cut behind a given app-id;
  * `like_listPattern` -- the keys that the backend returns for an app;
  * `listPattern_exact` -- and those that it returns for an app and a search text.
-/
import DevDashboard.StateStore.Keys
import DevDashboard.Lib.Utf8

namespace DevDashboard.State

open Lib StateStore
open Url (Octets utf8)

/-! ## 1. `classify` -/

inductive Kind where
  | app
  | workflow
  | actor
  deriving DecidableEq

structure KeyParts where
  appID : Str := []
  logicalKey : Str
  kind : Kind
  deriving DecidableEq

/-- `"dapr.internal."` -/
def internalActorPrefix : Str := actorTypeHead

/-- `ComposeKey`. -/
def composeKey (appID key : Str) : Str := appID ++ keyDelimiter ++ key

/-- `classify`. -/
def classify (key : Str) : KeyParts :=
  match Str.split keyDelimiter key with
  | [a, b] => ⟨a, b, .app⟩
  | a :: b :: rest =>
      ⟨a, keyDelimiter.intercalate (b :: rest),
        if Str.hasPrefix b internalActorPrefix then .workflow else .actor⟩
  | _ => { logicalKey := key, kind := .app }

/-- The kind that `classify` reads off what stands behind the app-id. -/
def kindOf (key : Str) : Kind :=
  match Str.split keyDelimiter key with
  | b :: _ :: _ => if Str.hasPrefix b internalActorPrefix then .workflow else .actor
  | _ => .app

theorem keyDelimiter_ne_nil : keyDelimiter ≠ [] := by decide

/-- **A key composed of a separable app-id is cut where it was composed.** -/
theorem classify_composeKey {a : Str} (ha : Str.SepFree keyDelimiter a) (b : Str) :
    classify (composeKey a b) = ⟨a, b, kindOf b⟩ := by
  have hjoin := Str.join_split keyDelimiter_ne_nil b
  have hne := Str.split_ne_nil keyDelimiter_ne_nil b
  unfold classify kindOf composeKey
  rw [Str.split_append keyDelimiter_ne_nil ha]
  cases hs : Str.split keyDelimiter b with
  | nil => exact absurd hs hne
  | cons x rest =>
      rw [hs] at hjoin
      cases rest with
      | nil =>
          rw [List.intercalate_singleton] at hjoin
          rw [hjoin]
      | cons y rest => simp only [hjoin]

theorem kindOf_of_no_sep {b : Str} (h : ¬ keyDelimiter <:+: b) : kindOf b = .app := by
  rw [kindOf, Str.split_of_no_sep h]

/-- A key without a delimiter has no app-id. -/
theorem classify_of_no_sep {k : Str} (h : ¬ keyDelimiter <:+: k) :
    classify k = { logicalKey := k, kind := .app } := by
  rw [classify, Str.split_of_no_sep h]

/-- **When the leftmost delimiter stands behind a text.** -/
theorem sepFree_iff {a : Str} :
    Str.SepFree keyDelimiter a ↔ ¬ keyDelimiter <:+: a ∧ a.getLast? ≠ some '|' := by
  constructor
  · intro h
    refine ⟨fun hin => ?_, fun hl => ?_⟩
    · obtain ⟨u, v, huv⟩ := hin
      refine h u (keyDelimiter ++ v) (by rw [← huv, List.append_assoc]) (by simp [keyDelimiter]) ?_
      exact ⟨v ++ keyDelimiter, by simp⟩
    · obtain ⟨u, rfl⟩ := List.getLast?_eq_some_iff.mp hl
      exact h u ['|'] rfl (by simp) (by decide)
  · rintro ⟨hin, hl⟩ u v huv hv hp
    subst huv
    cases v with
    | nil => exact hv rfl
    | cons c v =>
        obtain ⟨r, hr⟩ := hp
        have hc : '|' = c := (List.cons.inj hr).1
        cases v with
        | nil =>
            -- a delimiter that begins with the last character
            exact hl (by rw [← hc, List.getLast?_concat])
        | cons d v =>
            have hd : '|' = d := (List.cons.inj (List.cons.inj hr).2).1
            exact hin ⟨u, v, by rw [← hc, ← hd]; simp [keyDelimiter]⟩

/-- **The keys that are cut behind an app-id**: they begin with it and a delimiter, and no earlier
    delimiter is there. -/
theorem classify_appID_iff {k p : Str} (hp : p ≠ []) :
    (classify k).appID = p ↔ Str.SepFree keyDelimiter p ∧ p ++ keyDelimiter <+: k := by
  constructor
  · intro h
    by_cases hk : keyDelimiter <:+: k
    · obtain ⟨a, b, ha, rfl⟩ := Str.exists_first_sep hk
      rw [← composeKey, classify_composeKey ha] at h
      obtain rfl : a = p := h
      exact ⟨ha, List.prefix_append _ _⟩
    · rw [classify_of_no_sep hk] at h
      exact absurd h.symm hp
  · intro ⟨hfree, b, hb⟩
    rw [← hb, ← composeKey, classify_composeKey hfree]

/-! ## 2. `listPattern` -/

/-- `escapeLike`. It writes runes, so a byte that is none of a rune's becomes U+FFFD. -/
def escapeLike (s : Octets) : Str := Like.escape (runes s)

/-- `listPattern`. The app-id and the search text are what the client sent, any bytes. -/
def listPattern (appID search : Octets) : Str :=
  let pre := if appID ≠ [] then escapeLike appID ++ keyDelimiter ++ ['%'] else ['%']
  if search = [] then pre else pre ++ escapeLike search ++ ['%']

theorem utf8_ne_nil {p : Str} (hp : p ≠ []) : utf8 p ≠ [] := fun h =>
  hp (utf8_injective (h.trans rfl))

/-- **The keys that the backend returns for an app**: those that begin with the app-id, taken
    literally, and a delimiter. -/
theorem like_listPattern {p : Str} (hp : p ≠ []) (k : Str) :
    Like.like (listPattern (utf8 p) []) k = true ↔ p ++ keyDelimiter <+: k := by
  have hpat : listPattern (utf8 p) [] = Like.escape p ++ (keyDelimiter ++ ['%']) := by
    simp [listPattern, utf8_ne_nil hp, escapeLike, runes_utf8]
  have hplain : Like.Plain keyDelimiter := by decide
  have hparse : Like.parse (keyDelimiter ++ ['%']) = some (keyDelimiter.map .lit ++ [.any]) :=
    Like.parse_append (Like.parse_of_plain hplain) rfl
  rw [hpat, Like.like_escape_append hparse]
  constructor
  · intro ⟨v, hk, hv⟩
    obtain ⟨w, rfl, -⟩ := (Like.like_plain_append hplain v).mp hv
    exact ⟨w, by rw [hk, List.append_assoc]⟩
  · intro ⟨w, hw⟩
    refine ⟨keyDelimiter ++ w, by rw [← hw, List.append_assoc], ?_⟩
    refine (Like.like_plain_append hplain _).mpr ⟨w, rfl, ?_⟩
    exact (Like.matchToks_any _ _).mpr ⟨w, [], by simp, rfl⟩

/-- What every key of the query begins with: nothing without an app-id. -/
def scope (appID : Str) : Str := if appID = [] then [] else appID ++ keyDelimiter

/-- The pattern of a query, read: the scope, any run, and the search text between any runs. -/
def listTokens (appID search : Str) : List (Like.Tok Char) :=
  (scope appID).map .lit ++ [.any] ++ if search = [] then [] else search.map .lit ++ [.any]

theorem parse_escapeLike (s : Str) : Like.parse (escapeLike (utf8 s)) = some (s.map .lit) := by
  rw [escapeLike, runes_utf8, Like.parse_escape]

/-- **The pattern is well-formed**: every piece of it is, whatever the texts. -/
theorem parse_listPattern (appID search : Str) :
    Like.parse (listPattern (utf8 appID) (utf8 search)) = some (listTokens appID search) := by
  have hany : Like.parse ['%'] = some [.any] := rfl
  have hpre : Like.parse (if utf8 appID ≠ [] then
      escapeLike (utf8 appID) ++ keyDelimiter ++ ['%'] else ['%']) =
        some ((scope appID).map .lit ++ [.any]) := by
    by_cases ha : appID = []
    · rw [if_neg (by rw [ha]; simp [utf8]), scope, if_pos ha]
      exact hany
    · rw [if_pos (utf8_ne_nil ha), scope, if_neg ha, List.map_append]
      have hdelim := Like.parse_of_plain (show Like.Plain keyDelimiter by decide)
      exact Like.parse_append (Like.parse_append (parse_escapeLike appID) hdelim) hany
  unfold listPattern listTokens
  by_cases hs : search = []
  · simp only [hs, if_true, show utf8 ([] : Str) = [] from rfl, List.append_nil]
    exact hpre
  · simp only [if_neg (utf8_ne_nil hs), if_neg hs]
    rw [List.append_assoc]
    exact Like.parse_append hpre (Like.parse_append (parse_escapeLike search) hany)

/-- A text between any runs matches the texts it is a piece of. -/
theorem matchToks_infix (search rest : Str) :
    Like.matchToks (.any :: if search = [] then [] else search.map .lit ++ [.any]) rest = true ↔
      search <:+: rest := by
  rw [Like.matchToks_any]
  by_cases hs : search = []
  · rw [if_pos hs, hs]
    exact ⟨fun _ => List.nil_infix, fun _ => ⟨rest, [], by simp, rfl⟩⟩
  · rw [if_neg hs]
    constructor
    · rintro ⟨u, v, rfl, hv⟩
      obtain ⟨x, y, rfl, hx, -⟩ := (Like.matchToks_append _ _ _).mp hv
      rw [(Like.matchToks_map_lit _ _).mp hx]
      exact ⟨u, y, by rw [List.append_assoc]⟩
    · rintro ⟨u, v, rfl⟩
      refine ⟨u, search ++ v, by rw [List.append_assoc], (Like.matchToks_append _ _ _).mpr ?_⟩
      exact ⟨search, v, rfl, (Like.matchToks_map_lit _ _).mpr rfl,
        (Like.matchToks_any _ _).mpr ⟨v, [], by simp, rfl⟩⟩

/-- **The pattern of a query is exact.** It is well-formed, and a key matches it if and only if
    the key begins with the app-id and a delimiter, where there is an app-id, and the search text is
    a piece of what follows. -/
theorem listPattern_exact (appID search key : Str) :
    (∃ tokens, Like.parse (listPattern (utf8 appID) (utf8 search)) = some tokens) ∧
      (Like.like (listPattern (utf8 appID) (utf8 search)) key = true ↔
        ∃ rest, ((appID = [] ∧ key = rest) ∨
            (appID ≠ [] ∧ key = appID ++ keyDelimiter ++ rest)) ∧ search <:+: rest) := by
  have hparse := parse_listPattern appID search
  refine ⟨⟨_, hparse⟩, ?_⟩
  have hscope : ∀ rest, (appID = [] ∧ key = rest) ∨
      (appID ≠ [] ∧ key = appID ++ keyDelimiter ++ rest) ↔ key = scope appID ++ rest := by
    intro rest
    unfold scope
    by_cases ha : appID = [] <;> simp [ha]
  simp only [hscope]
  rw [Like.like, hparse]
  simp only [listTokens, List.append_assoc, Like.matchToks_append _ _ key,
    Like.matchToks_map_lit, List.singleton_append, matchToks_infix]
  constructor
  · rintro ⟨u, rest, rfl, rfl, hinfix⟩
    exact ⟨rest, rfl, hinfix⟩
  · rintro ⟨rest, rfl, hinfix⟩
    exact ⟨_, rest, rfl, rfl, hinfix⟩

end DevDashboard.State
