/-
  File:      DevDashboard/Workflow/RemoveScope.lean
  Subject:   WHAT A REMOVAL REACHES.

  * `forceDelete_isolated_iff` -- a force delete keeps to its instance exactly if the ids in its
    pattern have no `%`, no `_` and no backslash;
  * `post_addresses_iff` -- a terminate or purge addresses its instance exactly if the id has no
    `/`, `?`, `#` and `%`, or the request is not sent at all.
-/
import DevDashboard.Workflow.Remove

namespace DevDashboard.Workflow

open Lib Lib.Url StateStore
open Lib.Like (like Plain)

/-! ## 1. Force delete -/

/-- A force delete keeps to its instance: whatever the store holds and however the deletes end,
    a key that does not begin with the instance's prefix keeps its value, and so does every key
    of another instance. -/
def Isolated (A : Type) (r : Remover) (t : RemoveTarget) : Prop :=
  ∀ (env : Env A) (c : Content),
    (∀ k, ¬ instancePrefix (deleteNamespace r t) t.appID t.instanceID <+: k →
      (forceDelete env r c t).1.get k = c.get k) ∧
    (∀ ns app id sfx, '|' ∉ ns → '|' ∉ app → '|' ∉ id → '|' ∉ sfx →
      (ns, app, id) ≠ (deleteNamespace r t, t.appID, t.instanceID) →
      (forceDelete env r c t).1.get (instancePrefix ns app id ++ sfx) =
        c.get (instancePrefix ns app id ++ sfx))

/-- With plain ids the keys that do not begin with the prefix stay. -/
theorem forceDelete_get_of_plain {A : Type} {env : Env A} {r : Remover} {c : Content}
    {t : RemoveTarget}
    (h : Plain (deleteNamespace r t) ∧ Plain t.appID ∧ Plain t.instanceID) {k : Str}
    (hk : ¬ instancePrefix (deleteNamespace r t) t.appID t.instanceID <+: k) :
    (forceDelete env r c t).1.get k = c.get k := by
  refine forceDelete_get_of_not_like ?_
  rw [← Bool.not_eq_true, like_instanceKeyPattern h]
  exact hk

/-- A store that holds one key. -/
def single (k : Str) (v : Bytes) : Content := ⟨[(k, v)], by simp⟩

/-- An outside where every delete succeeds. -/
def allDeleted (A : Type) : Env A where
  readAuthority := fun _ => none
  parseError := fun u => u
  exchange := fun _ => .error []
  keysErr := none
  delete := fun _ => .ok

/-- A store that holds one key the pattern matches is emptied. -/
theorem forceDelete_single {A : Type} {r : Remover} {t : RemoveTarget} {k : Str} {v : Bytes}
    (hs : r.hasStore = true)
    (h : like (instanceKeyPattern (deleteNamespace r t) t.appID t.instanceID) k = true) :
    (forceDelete (allDeleted A) r (single k v) t).1.get k = none := by
  have hk : (single k v).keysLike
      (instanceKeyPattern (deleteNamespace r t) t.appID t.instanceID) = [k] := by
    simp [Content.keysLike, Content.keys, single, h]
  unfold forceDelete
  rw [if_pos hs]
  simp only [allDeleted, hk, deleteKeys]
  exact Content.get_delete_self _ _

/-- **A force delete keeps to its instance exactly if the ids are plain** (or there is no store
    to delete from). -/
theorem forceDelete_isolated_iff (A : Type) (r : Remover) (t : RemoveTarget) :
    Isolated A r t ↔
      r.hasStore = false ∨
        (Plain (deleteNamespace r t) ∧ Plain t.appID ∧ Plain t.instanceID) := by
  constructor
  · intro h
    by_contra hn
    rw [not_or] at hn
    have hs : r.hasStore = true := by simpa using hn.1
    obtain ⟨k, hl, hp⟩ := exists_like_foreign hn.2
    have hget := (h (allDeleted A) (single k [])).1 k hp
    rw [forceDelete_single hs hl] at hget
    simp [single, Content.get] at hget
  · rintro (hs | hplain) env c
    · have hc : (forceDelete env r c t).1 = c := by
        unfold forceDelete
        rw [if_neg (by simp [hs])]
      exact ⟨fun _ _ => by rw [hc], fun _ _ _ _ _ _ _ _ _ => by rw [hc]⟩
    · refine ⟨fun k hk => forceDelete_get_of_plain hplain hk,
        fun ns app id sfx h1 h2 h3 h4 hne => ?_⟩
      refine forceDelete_get_of_plain hplain fun hp => hne ?_
      obtain ⟨rfl, rfl, rfl⟩ := instance_eq_of_prefix h1 h2 h3 h4 hp
      rfl

/-- The removal of `order_42` reports success and deletes the metadata record of `order-42`. -/
theorem forceDelete_hits_other :
    ∃ (r : Remover) (t : RemoveTarget) (c : Content) (k : Str),
      t.instanceID = "order_42".toList ∧
      k = metaKey (deleteNamespace r t) t.appID "order-42".toList ∧
      ¬ instancePrefix (deleteNamespace r t) t.appID t.instanceID <+: k ∧
      c.get k = some [1] ∧
      (forceDelete (allDeleted Unit) r c t).2 = none ∧
      (forceDelete (allDeleted Unit) r c t).1.get k = none := by
  refine ⟨newRemover true [], { appID := "shop".toList, instanceID := "order_42".toList },
    single (metaKey defaultNamespace "shop".toList "order-42".toList) [1], _, rfl, rfl,
    ?_, ?_, ?_, ?_⟩
  · decide
  · decide
  · decide
  · decide

/-! ## 2. Terminate and purge -/

theorem action_text (a : Action) :
    '#' ∉ a.text ∧ '?' ∉ a.text ∧ '%' ∉ a.text ∧ '/' ∉ a.text ∧ a.text.any isCTL = false := by
  cases a <;> decide

/-- What stands before the instance id in a request's path. -/
def apiHead : Str :=
  '/' :: apiVersion ++ '/' :: workflowsSegment ++ '/' :: workflowComponent ++ ['/']

theorem postPath_eq (id : Str) (a : Action) :
    postPath id a = apiHead ++ (id ++ '/' :: a.text) := by
  simp [postPath, apiHead]

/-- The piece of an id that ends up in the path: up to the first `#`, and before that up to the
    first `?`. -/
def pathPart (id : Str) : Str := (cut '?' (cut '#' id).1).1

/-- When `post` returns an error without sending: a control character in the base or in the id
    before its `#`, an authority or an escape that cannot be read. -/
def PostRejects {A : Type} (readAuthority : Str → Option A) (b : Base) (id : Str) : Prop :=
  (b.text ++ (cut '#' id).1).any isCTL = true ∨ readAuthority b.authority = none ∨
    unescape b.path = none ∨ unescape (pathPart id) = none ∨
    ∃ frag, (cut '#' id).2 = some frag ∧ unescape frag = none

/-- What a request's path and query look like, by where the id is cut. -/
theorem cut_postPath (id : Str) (a : Action) :
    ((cut '#' (postPath id a)).1 =
        apiHead ++ (if '#' ∈ id then (cut '#' id).1 else id ++ '/' :: a.text)) ∧
      (cut '#' (postPath id a)).2 = (cut '#' id).2.map (· ++ '/' :: a.text) := by
  obtain ⟨h1, -, -, -, -⟩ := action_text a
  have hz : '#' ∉ '/' :: a.text := by simp [h1]
  rw [postPath_eq, cut_append (by decide), cut_append_tail hz]
  by_cases h : '#' ∈ id
  · simp [h]
  · simp [h, cut_of_not_mem h]

theorem cut_query_postPath (id : Str) (a : Action) :
    (cut '?' (cut '#' (postPath id a)).1).1 =
      apiHead ++ (if '#' ∈ id ∨ '?' ∈ id then pathPart id else id ++ '/' :: a.text) := by
  obtain ⟨-, h2, -, -, -⟩ := action_text a
  have hz : '?' ∉ '/' :: a.text := by simp [h2]
  rw [(cut_postPath id a).1, cut_append (by decide)]
  by_cases h : '#' ∈ id
  · simp [h, pathPart]
  · rw [if_neg h, cut_append_tail hz]
    by_cases h' : '?' ∈ id
    · simp [h', pathPart, cut_of_not_mem h]
    · simp [h, h']

theorem mem_query_postPath (id : Str) (a : Action) :
    '?' ∈ (cut '#' (postPath id a)).1 ↔ '?' ∈ (cut '#' id).1 := by
  obtain ⟨-, h2, -, -, -⟩ := action_text a
  have hh : '?' ∉ apiHead := by decide
  rw [(cut_postPath id a).1, List.mem_append, or_iff_right hh]
  by_cases h : '#' ∈ id
  · rw [if_pos h]
  · rw [if_neg h, cut_of_not_mem h]
    simp [h2]

theorem unescape_apiHead (b : Base) (x : Str) :
    unescape (b.path ++ (apiHead ++ x)) = none ↔ unescape b.path = none ∨ unescape x = none := by
  have he : b.path ++ (apiHead ++ x) = b.path ++ '/' ::
      ((apiVersion ++ '/' :: workflowsSegment ++ '/' :: workflowComponent) ++ '/' :: x) := by
    simp [apiHead]
  have hs : unescape (apiVersion ++ '/' :: workflowsSegment ++ '/' :: workflowComponent) ≠ none := by
    decide
  rw [he, unescape_append_slash_eq_none, unescape_append_slash_eq_none, or_iff_right hs]

theorem unescape_append_action {x : Str} (a : Action) :
    unescape (x ++ '/' :: a.text) = none ↔ unescape x = none := by
  obtain ⟨-, -, h3, -, -⟩ := action_text a
  rw [unescape_append_slash_eq_none, unescape_of_not_mem h3]
  simp

/-- `post` rejects what `Parse` rejects. -/
theorem rejects_postPath {A : Type} (readAuthority : Str → Option A) (b : Base) (id : Str)
    (a : Action) :
    Rejects readAuthority b (postPath id a) ↔ PostRejects readAuthority b id := by
  obtain ⟨-, -, -, -, hctl⟩ := action_text a
  have hh : apiHead.any isCTL = false := by decide
  unfold Rejects PostRejects
  refine or_congr ?_ (or_congr Iff.rfl ?_)
  · rw [(cut_postPath id a).1]
    by_cases h : '#' ∈ id
    · simp only [if_pos h, List.any_append, hh, Bool.false_or]
    · have hs : isCTL '/' = false := by decide
      simp only [if_neg h, cut_of_not_mem h, List.any_append, hh, List.any_cons, hctl, hs,
        Bool.false_or, Bool.or_false]
  · rw [cut_query_postPath, unescape_apiHead, (cut_postPath id a).2, or_assoc]
    refine or_congr Iff.rfl (or_congr ?_ ?_)
    · by_cases h : '#' ∈ id ∨ '?' ∈ id
      · rw [if_pos h]
      · rw [not_or] at h
        rw [if_neg (by simp [h]), unescape_append_action, pathPart, cut_of_not_mem h.1,
          cut_of_not_mem h.2]
    · cases (cut '#' id).2 with
      | none => simp
      | some f => simp [unescape_append_action]

/-- The URL's path is the base's path and after it the five segments, and there is no query. -/
def Addressed {A : Type} (url : URL A) (b : Base) (fourth : Option Octets) (a : Action) : Prop :=
  segments url.rawPath = segments b.path ++
      [some (utf8 apiVersion), some (utf8 workflowsSegment), some (utf8 workflowComponent),
        fourth, some (utf8 a.text)] ∧
    url.forceQuery = false ∧ url.rawQuery = []

theorem segments_append_slash (x y : Str) :
    segments (x ++ '/' :: y) = segments x ++ segments y := by
  rw [segments, List.splitOn_append_cons_self, List.map_append]
  rfl

theorem segments_of_not_mem {x : Str} (h : '/' ∉ x) : segments x = [unescape x] := by
  rw [segments, List.splitOn_eq_singleton h]
  rfl

/-- The segments after the base are the API's three and those of the rest. -/
theorem segments_apiHead (b : Base) (x : Str) :
    segments (b.path ++ (apiHead ++ x)) = segments b.path ++
      [some (utf8 apiVersion), some (utf8 workflowsSegment), some (utf8 workflowComponent)] ++
        segments x := by
  have he : b.path ++ (apiHead ++ x) = b.path ++ '/' :: (apiVersion ++ '/' ::
      (workflowsSegment ++ '/' :: (workflowComponent ++ '/' :: x))) := by
    simp [apiHead]
  rw [he, segments_append_slash, segments_append_slash, segments_append_slash,
    segments_append_slash, segments_of_not_mem (x := apiVersion) (by decide),
    segments_of_not_mem (x := workflowsSegment) (by decide),
    segments_of_not_mem (x := workflowComponent) (by decide),
    unescape_of_not_mem (s := apiVersion) (by decide),
    unescape_of_not_mem (s := workflowsSegment) (by decide),
    unescape_of_not_mem (s := workflowComponent) (by decide)]
  simp

theorem segments_ne_nil (x : Str) : segments x ≠ [] := by
  simp [segments, List.splitOn_ne_nil]

/-- A path is one segment exactly if it has no slash. -/
theorem segments_eq_singleton_iff {x : Str} {f : Option Octets} :
    segments x = [f] ↔ '/' ∉ x ∧ unescape x = f := by
  constructor
  · intro h
    have hm : '/' ∉ x := fun hm => by
      obtain ⟨p, q, -, rfl⟩ := exists_cut hm
      have hl := congrArg List.length h
      have hp := List.length_pos_iff.mpr (segments_ne_nil p)
      have hq := List.length_pos_iff.mpr (segments_ne_nil q)
      rw [segments_append_slash, List.length_append, List.length_singleton] at hl
      omega
    rw [segments_of_not_mem hm] at h
    exact ⟨hm, List.singleton_inj.mp h⟩
  · rintro ⟨hm, rfl⟩
    exact segments_of_not_mem hm

/-- A piece of a text before a slash does not decode to the text, decoded or not. -/
theorem unescape_ne_of_slash {p r : Str} (hp : unescape p ≠ none) :
    unescape p ≠ some (utf8 (p ++ '/' :: r)) ∧ unescape p ≠ unescape (p ++ '/' :: r) := by
  obtain ⟨u, hu⟩ := Option.ne_none_iff_exists'.mp hp
  rw [hu]
  constructor
  · intro h
    have hl := (length_unescape hu).1
    have hs : Char.utf8Size '/' = 1 := by decide
    rw [Option.some.inj h, utf8_append, List.length_append, length_utf8_cons] at hl
    omega
  · intro h
    rw [unescape_append_slash, hu] at h
    cases hr : unescape r with
    | none => simp [hr] at h
    | some w =>
        have hl := congrArg (Option.map List.length) h
        have hs : Char.utf8Size '/' = 1 := by decide
        simp [hr, hs] at hl

/-- What an id does to the request: it is the fourth segment exactly if nothing in it ends the
    segment, and the segment decodes to what is asked for. -/
theorem segments_of_id {id : Str} {f : Option Octets} (a : Action)
    (hf : f = some (utf8 id) ∨ f = unescape id) (hp : unescape (pathPart id) ≠ none) :
    (segments (if '#' ∈ id ∨ '?' ∈ id then pathPart id else id ++ '/' :: a.text) =
        [f, some (utf8 a.text)] ∧ '?' ∉ (cut '#' id).1) ↔
      ('/' ∉ id ∧ '?' ∉ id ∧ '#' ∉ id) ∧ unescape id = f := by
  obtain ⟨-, -, h3, h4, -⟩ := action_text a
  by_cases hash : '#' ∈ id
  · -- the action is gone with the fragment; a path that still has two pieces has a piece of the
    -- id in the fourth place
    refine iff_of_false ?_ fun h => h.1.2.2 hash
    rintro ⟨hseg, hq⟩
    obtain ⟨u, v, hu, rfl⟩ := exists_cut hash
    rw [cut_append_cons hu] at hq
    have hpart : pathPart (u ++ '#' :: v) = u := by
      rw [pathPart, cut_append_cons hu, cut_of_not_mem hq]
    rw [if_pos (.inl hash), hpart] at hseg
    rw [hpart] at hp
    by_cases hs : '/' ∈ u
    · obtain ⟨p, q, hpq, rfl⟩ := exists_cut hs
      rw [segments_append_slash, segments_of_not_mem hpq] at hseg
      have hne : unescape p ≠ none := fun hn => hp (unescape_append_slash_eq_none.mpr (.inl hn))
      have hfirst : unescape p = f := (List.cons.inj hseg).1
      have hid : (p ++ '/' :: q) ++ '#' :: v = p ++ '/' :: (q ++ '#' :: v) := by simp
      rw [hid] at hf
      rcases hf with rfl | rfl
      · exact (unescape_ne_of_slash hne).1 hfirst
      · exact (unescape_ne_of_slash hne).2 hfirst
    · rw [segments_of_not_mem hs] at hseg
      simp at hseg
  · by_cases hq : '?' ∈ id
    · refine iff_of_false (fun h => h.2 ?_) fun h => h.1.2.1 hq
      rw [cut_of_not_mem hash]
      exact hq
    · rw [if_neg (by simp [hash, hq]), segments_append_slash, segments_of_not_mem h4,
        unescape_of_not_mem h3, cut_of_not_mem hash]
      have hsplit : segments id ++ [some (utf8 a.text)] = [f, some (utf8 a.text)] ↔
          segments id = [f] :=
        ⟨fun h => List.append_cancel_right h, fun h => by rw [h]; rfl⟩
      rw [hsplit, segments_eq_singleton_iff]
      simp [hash, hq]

section Post

variable {A : Type} (env : Env A) (t : RemoveTarget) (b : Base) (a : Action)

theorem post_fst :
    (post env t a).1 = parse env.readAuthority (postBase t ++ postPath t.instanceID a) := by
  unfold post
  simp only
  split
  · rename_i h
    rw [h]
  · rename_i url h
    rw [h]
    cases env.exchange url with
    | error e => rfl
    | ok resp =>
        simp only
        split <;> rfl

theorem post_snd_of_not_sent (h : (post env t a).1 = none) : (post env t a).2 ≠ none := by
  rw [post_fst] at h
  unfold post
  simp [h]

variable {t b}

/-- Either reading of "the instance": the fourth segment decodes to the id, or to what the id
    decodes to. -/
theorem post_addressed_iff (hb : postBase t = b.text) {f : Option Octets}
    (hf : f = some (utf8 t.instanceID) ∨ f = unescape t.instanceID) :
    (∀ url, (post env t a).1 = some url → Addressed url b f a) ↔
      PostRejects env.readAuthority b t.instanceID ∨
        ('/' ∉ t.instanceID ∧ '?' ∉ t.instanceID ∧ '#' ∉ t.instanceID) ∧
          unescape t.instanceID = f := by
  rw [post_fst, hb]
  obtain ⟨hr, hn⟩ | ⟨hr, url, hurl, hpath, hquery⟩ :=
      parse_append_cases env.readAuthority b (x := postPath t.instanceID a) rfl
  · rw [rejects_postPath] at hr
    exact iff_of_true (fun url h => by rw [hn] at h; cases h) (.inl hr)
  · rw [rejects_postPath] at hr
    have hp : unescape (pathPart t.instanceID) ≠ none := fun h =>
      hr (.inr (.inr (.inr (.inl h))))
    rw [or_iff_right hr, ← segments_of_id a hf hp, hurl]
    rw [mem_query_postPath] at hquery
    have hadd : Addressed url b f a ↔
        segments (if '#' ∈ t.instanceID ∨ '?' ∈ t.instanceID then pathPart t.instanceID
          else t.instanceID ++ '/' :: a.text) = [f, some (utf8 a.text)] ∧
          '?' ∉ (cut '#' t.instanceID).1 := by
      unfold Addressed
      rw [hquery, hpath, cut_query_postPath, segments_apiHead, List.append_assoc,
        List.append_cancel_left_eq]
      simp
    rw [← hadd]
    exact ⟨fun h => h url rfl, fun h u hu => by rw [← Option.some.inj hu]; exact h⟩

/-- **A terminate or purge addresses exactly its instance, or nothing is sent**, if and only if
    the request is rejected or the id has no `/`, `?` and `#` -- and no `%`, when it is the id
    itself that the fourth segment has to decode to. What is not sent is an error. -/
theorem post_addresses_iff (hb : postBase t = b.text) :
    ((∀ url, (post env t a).1 = some url →
          Addressed url b (some (utf8 t.instanceID)) a) ↔
        PostRejects env.readAuthority b t.instanceID ∨
          ∀ c ∈ t.instanceID, c ≠ '/' ∧ c ≠ '?' ∧ c ≠ '#' ∧ c ≠ '%') ∧
      ((∀ url, (post env t a).1 = some url → Addressed url b (unescape t.instanceID) a) ↔
        PostRejects env.readAuthority b t.instanceID ∨
          ∀ c ∈ t.instanceID, c ≠ '/' ∧ c ≠ '?' ∧ c ≠ '#') ∧
      ((post env t a).1 = none → (post env t a).2 ≠ none) := by
  refine ⟨?_, ?_, post_snd_of_not_sent env t a⟩
  · rw [post_addressed_iff env a hb (.inl rfl), unescape_eq_utf8_iff]
    refine or_congr Iff.rfl ⟨fun h c hc => ?_, fun h => ?_⟩
    · refine ⟨?_, ?_, ?_, ?_⟩ <;> rintro rfl
      exacts [h.1.1 hc, h.1.2.1 hc, h.1.2.2 hc, h.2 hc]
    · exact ⟨⟨fun hm => (h _ hm).1 rfl, fun hm => (h _ hm).2.1 rfl,
        fun hm => (h _ hm).2.2.1 rfl⟩, fun hm => (h _ hm).2.2.2 rfl⟩
  · rw [post_addressed_iff env a hb (.inr rfl)]
    refine or_congr Iff.rfl ⟨fun h c hc => ?_, fun h => ?_⟩
    · refine ⟨?_, ?_, ?_⟩ <;> rintro rfl
      exacts [h.1.1 hc, h.1.2.1 hc, h.1.2.2 hc]
    · exact ⟨⟨fun hm => (h _ hm).1 rfl, fun hm => (h _ hm).2.1 rfl,
        fun hm => (h _ hm).2.2 rfl⟩, rfl⟩

end Post

/-- The sidecar of an app on this machine. -/
def localBase : Base where
  scheme := "http".toList
  authority := "127.0.0.1:3500".toList
  path := []
  scheme_letter := ⟨'h', "ttp".toList, by decide, by decide⟩
  scheme_chars := Str.forall_mem_of_all (by decide)
  authority_free := Str.forall_mem_of_all (by decide)
  path_rooted := .inl rfl
  path_free := Str.forall_mem_of_all (by decide)

def localTarget (instanceID : Str) : RemoveTarget :=
  { appID := "shop".toList, instanceID, daprHTTPBaseURL := localBase.text, healthy := true }

/-- A client that reads any authority and gets an empty answer. -/
def answering : Env Str where
  readAuthority := some
  parseError := fun u => u
  exchange := fun _ => .ok ⟨202, []⟩
  keysErr := none
  delete := fun _ => .ok

theorem post_addresses_iff_order :
    postBase (localTarget "order-42".toList) = localBase.text ∧
      ∀ url, (post answering (localTarget "order-42".toList) .purge).1 = some url →
        Addressed url localBase (some (utf8 "order-42".toList)) .purge :=
  ⟨by decide, (post_addresses_iff answering .purge (t := localTarget "order-42".toList)
    (b := localBase) (by decide)).1.mpr (.inr (Str.forall_mem_of_all (by decide)))⟩

/-- The purge of `order/purge#1` is sent, and it purges `order`. -/
theorem post_hits_other :
    ∃ url, (post answering (localTarget "order/purge#1".toList) .purge).1 = some url ∧
      Addressed url localBase (some (utf8 "order".toList)) .purge ∧
      ¬ Addressed url localBase (some (utf8 "order/purge#1".toList)) .purge ∧
      ¬ Addressed url localBase (unescape "order/purge#1".toList) .purge := by
  have hb : postBase (localTarget "order/purge#1".toList) = localBase.text := by decide
  have hfree : '%' ∉ "order/purge#1".toList := by decide
  obtain ⟨hr, -⟩ | ⟨-, url, hurl, hpath, hquery⟩ := parse_append_cases answering.readAuthority
      localBase (x := postPath "order/purge#1".toList .purge) rfl
  · rw [rejects_postPath] at hr
    have hfrag : (cut '#' "order/purge#1".toList).2 = some ['1'] := by decide
    have hpart : pathPart "order/purge#1".toList = "order/purge".toList := by decide
    rcases hr with h | h | h | h | ⟨frag, h, h'⟩
    · exact absurd h (by decide)
    · cases h
    · cases h
    · rw [hpart, unescape_of_not_mem (by decide)] at h
      cases h
    · obtain rfl := Option.some.inj (hfrag.symm.trans h)
      rw [unescape_of_not_mem (by decide)] at h'
      cases h'
  · have hcut : (cut '?' (cut '#' (postPath "order/purge#1".toList .purge)).1).1 =
        apiHead ++ ("order".toList ++ '/' :: Action.purge.text) := by decide
    have hseg : segments url.rawPath = segments localBase.path ++
        [some (utf8 apiVersion), some (utf8 workflowsSegment), some (utf8 workflowComponent)] ++
          [some (utf8 "order".toList), some (utf8 Action.purge.text)] := by
      rw [hpath, hcut, segments_apiHead, segments_append_slash,
        segments_of_not_mem (x := "order".toList) (by decide),
        segments_of_not_mem (x := Action.purge.text) (by decide),
        unescape_of_not_mem (s := "order".toList) (by decide),
        unescape_of_not_mem (s := Action.purge.text) (by decide)]
      rfl
    have hq := hquery.mpr (by decide)
    have hother : ¬ Addressed url localBase (some (utf8 "order/purge#1".toList)) .purge := by
      rintro ⟨h, -⟩
      rw [hseg, List.append_assoc, List.append_cancel_left_eq] at h
      have he : utf8 "order".toList = utf8 "order/purge#1".toList := by simpa using h
      have hu : unescape "order".toList = some (utf8 "order".toList) :=
        unescape_of_not_mem (by decide)
      have hne : unescape "order".toList ≠ none := by
        rw [hu]
        exact Option.some_ne_none _
      exact (unescape_ne_of_slash (r := "purge#1".toList) hne).1 (hu.trans (by rw [he]; rfl))
    refine ⟨url, by rw [post_fst, hb]; exact hurl, ⟨?_, hq⟩, hother, ?_⟩
    · rw [hseg, List.append_assoc]
      rfl
    · rw [unescape_of_not_mem hfree]
      exact hother

end DevDashboard.Workflow
