/-
  File:      DevDashboard/Server/Records.lean
  Subject:   CREATING A STATE RECORD (`pkg/server/state.go`, `POST /record`).

  The handler refuses a delimiter inside the app-id and inside the key. It does not look at the
  join: a bar at the end of the app-id makes a delimiter with the one that follows it.

  * `composeKey_bar` -- where such a key is cut;
  * `composeKey_eq_iff` -- when two accepted bodies compose the same key;
  * `created_listed_iff` -- when a record is listed as what was created.
-/
import DevDashboard.State.Service

namespace DevDashboard.Server

open Lib StateStore State

/-! ## 1. The handler -/

structure CreateBody where
  appID : Str
  key : Str
  value : Str := []
  overwrite : Bool := false

inductive CreateResponse where
  | created (key : Str)
  | failed (status : Nat) (error : Str)

/-- The text of an error of the state service. -/
def stateErrorText : StateError → Str
  | .noStore => "no state store configured".toList
  | .storeUnreachable name conn =>
      "could not connect to state store \"".toList ++ name ++ "\" (".toList ++ conn ++ ")".toList
  | .notBrowsable => "state store cannot be browsed".toList
  | .existing key => "record already exists: ".toList ++ key
  | .notFound => "record not found".toList
  | .backend text => text

/-- `writeStateErr`. -/
def writeStateErr : StateError → CreateResponse
  | .noStore => .failed 503 "no state store detected".toList
  | .storeUnreachable name conn => .failed 503 (stateErrorText (.storeUnreachable name conn))
  | .notBrowsable => .failed 503 "this state store cannot be browsed".toList
  | .existing key => .failed 409 (stateErrorText (.existing key))
  | .notFound => .failed 404 "record not found".toList
  | .backend text => .failed 500 text

/-- What the handler refuses of a body, and how it says so. -/
def refusal (body : CreateBody) : Option Str :=
  if body.appID = [] ∨ body.key = [] then some "appId and key are required".toList
  else if keyDelimiter <:+: body.appID ∨ keyDelimiter <:+: body.key then
    some "appId and key cannot contain \"||\"".toList
  else none

/-- `POST /record`. The store may be unknown, and the body may not decode. -/
def createRecord (svc : Option Service) (body : Option CreateBody) : CreateResponse :=
  match svc, body with
  | none, _ => .failed 404 "unknown state store".toList
  | some _, none => .failed 400 "invalid JSON body".toList
  | some svc, some body =>
      match refusal body with
      | some text => .failed 400 text
      | none =>
          match svc.set body.appID body.key (Url.utf8 body.value) body.overwrite with
          | .error e => writeStateErr e
          | .ok () => .created (composeKey body.appID body.key)

/-- The handler composes the key of an accepted body, and of no other. -/
theorem refusal_of_created {svc : Option Service} {body : CreateBody} {key : Str}
    (h : createRecord svc (some body) = .created key) :
    refusal body = none ∧ key = composeKey body.appID body.key := by
  cases svc with
  | none => cases h
  | some svc =>
      unfold createRecord at h
      cases hr : refusal body with
      | some text => simp [hr] at h
      | none =>
          simp only [hr] at h
          cases hs : svc.set body.appID body.key (Url.utf8 body.value) body.overwrite with
          | error e =>
              rw [hs] at h
              cases e <;> cases h
          | ok u =>
              rw [hs] at h
              cases h
              exact ⟨rfl, rfl⟩

/-! ## 2. Where a composed key is cut -/

structure Accepted (body : CreateBody) : Prop where
  appID_free : ¬ keyDelimiter <:+: body.appID
  key_free : ¬ keyDelimiter <:+: body.key

theorem accepted_of_refusal {body : CreateBody} (h : refusal body = none) : Accepted body := by
  unfold refusal at h
  split_ifs at h with h1 h2
  exact ⟨fun hi => h2 (.inl hi), fun hi => h2 (.inr hi)⟩

/-- An app-id that ends in a bar, without it. -/
theorem exists_bar {body : CreateBody} (h : Accepted body) (hl : body.appID.getLast? = some '|') :
    ∃ a, body.appID = a ++ ['|'] ∧ Str.SepFree keyDelimiter a := by
  obtain ⟨a, ha⟩ := List.getLast?_eq_some_iff.mp hl
  refine ⟨a, ha, sepFree_iff.mpr ⟨fun hi => h.appID_free ?_, fun hl' => h.appID_free ?_⟩⟩
  · exact ha ▸ hi.trans (List.prefix_append a ['|']).isInfix
  · -- two bars in a row
    obtain ⟨b, rfl⟩ := List.getLast?_eq_some_iff.mp hl'
    exact ⟨b, [], by rw [ha]; simp [keyDelimiter]⟩

/-- **The bar goes over to the key**: the leftmost delimiter begins with it. -/
theorem composeKey_bar (a key : Str) :
    composeKey (a ++ ['|']) key = composeKey a ('|' :: key) := by
  simp [composeKey, keyDelimiter]

theorem classify_of_accepted {body : CreateBody} (h : Accepted body)
    (hl : body.appID.getLast? ≠ some '|') :
    classify (composeKey body.appID body.key) = ⟨body.appID, body.key, .app⟩ := by
  rw [classify_composeKey (sepFree_iff.mpr ⟨h.appID_free, hl⟩), kindOf_of_no_sep h.key_free]

/-- A composed key, however it is cut: the part in front of the leftmost delimiter and the rest. -/
theorem composeKey_inj {a a' k k' : Str} (ha : Str.SepFree keyDelimiter a)
    (ha' : Str.SepFree keyDelimiter a') (h : composeKey a k = composeKey a' k') :
    a = a' ∧ k = k' := by
  have hc := congrArg classify h
  rw [classify_composeKey ha, classify_composeKey ha'] at hc
  exact ⟨congrArg KeyParts.appID hc, congrArg KeyParts.logicalKey hc⟩

/-- One body composes the key of the other with a bar moved over. -/
def BarMoved (body body' : CreateBody) : Prop :=
  body'.appID = body.appID ++ ['|'] ∧ body.key = '|' :: body'.key

/-- **When two accepted bodies compose the same key**: they are the same, or a bar has moved. -/
theorem composeKey_eq_iff {body body' : CreateBody} (h : Accepted body) (h' : Accepted body') :
    composeKey body.appID body.key = composeKey body'.appID body'.key ↔
      (body.appID = body'.appID ∧ body.key = body'.key) ∨ BarMoved body body' ∨
        BarMoved body' body := by
  constructor
  · intro he
    by_cases hl : body.appID.getLast? = some '|'
    · obtain ⟨a, ha, hfree⟩ := exists_bar h hl
      rw [ha, composeKey_bar] at he
      by_cases hl' : body'.appID.getLast? = some '|'
      · obtain ⟨a', ha', hfree'⟩ := exists_bar h' hl'
        rw [ha', composeKey_bar] at he
        obtain ⟨rfl, hk⟩ := composeKey_inj hfree hfree' he
        exact .inl ⟨by rw [ha, ha'], (List.cons.inj hk).2⟩
      · obtain ⟨rfl, hk⟩ := composeKey_inj hfree (sepFree_iff.mpr ⟨h'.appID_free, hl'⟩) he
        exact .inr (.inr ⟨ha, hk.symm⟩)
    · have hfree := sepFree_iff.mpr ⟨h.appID_free, hl⟩
      by_cases hl' : body'.appID.getLast? = some '|'
      · obtain ⟨a', ha', hfree'⟩ := exists_bar h' hl'
        rw [ha', composeKey_bar] at he
        obtain ⟨ha, hk⟩ := composeKey_inj hfree hfree' he
        exact .inr (.inl ⟨by rw [ha', ha], hk⟩)
      · exact .inl (composeKey_inj hfree (sepFree_iff.mpr ⟨h'.appID_free, hl'⟩) he)
  · intro hcases
    rcases hcases with ⟨ha, hk⟩ | ⟨ha, hk⟩ | ⟨ha, hk⟩
    · rw [ha, hk]
    · rw [ha, hk, composeKey_bar]
    · rw [ha, hk, composeKey_bar]

/-- **A record is listed as what was created exactly if the app-id does not end in a bar.** Two
    accepted bodies compose different keys exactly if no bar can move from the one's app-id to the
    other's key. -/
theorem created_listed_iff (body body' : CreateBody) (h : refusal body = none)
    (h' : refusal body' = none) :
    (classify (composeKey body.appID body.key) = ⟨body.appID, body.key, .app⟩ ↔
      body.appID.getLast? ≠ some '|') ∧
    ((composeKey body.appID body.key = composeKey body'.appID body'.key →
        body.appID = body'.appID ∧ body.key = body'.key) ↔
      ¬ BarMoved body body' ∧ ¬ BarMoved body' body) := by
  have hacc := accepted_of_refusal h
  have hacc' := accepted_of_refusal h'
  constructor
  · refine ⟨fun hc hl => ?_, classify_of_accepted hacc⟩
    obtain ⟨a, ha, hfree⟩ := exists_bar hacc hl
    rw [ha, composeKey_bar, classify_composeKey hfree] at hc
    have hlen := congrArg (fun p => p.appID.length) hc
    simp at hlen
  · constructor
    · intro hinj
      refine ⟨fun hm => ?_, fun hm => ?_⟩
      · have he := hinj ((composeKey_eq_iff hacc hacc').mpr (.inr (.inl hm)))
        have hlen := congrArg List.length (he.1.trans hm.1)
        simp at hlen
      · have he := hinj ((composeKey_eq_iff hacc hacc').mpr (.inr (.inr hm)))
        have hlen := congrArg List.length (he.1.symm.trans hm.1)
        simp at hlen
    · intro hm he
      rcases (composeKey_eq_iff hacc hacc').mp he with hsame | hbar | hbar
      · exact hsame
      · exact absurd hbar hm.1
      · exact absurd hbar hm.2

theorem created_listed_iff_shop :
    refusal ⟨"s".toList, "1".toList, [], false⟩ = none ∧ refusal ⟨"s".toList, "2".toList, [], false⟩ = none ∧
      classify (composeKey "s".toList "1".toList) = ⟨"s".toList, "1".toList, .app⟩ := by
  have h1 : refusal ⟨"s".toList, "1".toList, [], false⟩ = none := by decide
  have h2 : refusal ⟨"s".toList, "2".toList, [], false⟩ = none := by decide
  exact ⟨h1, h2, (created_listed_iff _ _ h1 h2).1.mpr (by decide)⟩

/-- The app-id `a|` with the key `b` is accepted, listed as the key `|b` of the app `a`, and has
    the stored key of that record. -/
theorem bar_app_mislisted :
    refusal ⟨"a|".toList, "b".toList, [], false⟩ = none ∧ refusal ⟨"a".toList, "|b".toList, [], false⟩ = none ∧
      classify (composeKey "a|".toList "b".toList) ≠ ⟨"a|".toList, "b".toList, .app⟩ ∧
      composeKey "a|".toList "b".toList = composeKey "a".toList "|b".toList := by decide

end DevDashboard.Server
