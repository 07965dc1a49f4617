/-
  File:      DevDashboard/StateStore/Keys.lean
  Subject:   THE KEYS OF WORKFLOW STATE (`pkg/statestore/keys.go`).

  Dapr writes an instance's state under `<appId>||<actorType>||<instanceId>||<suffix>`. The
  patterns built here go to the backend's `LIKE` as they are: ids are not escaped.

  * `like_instanceKeyPattern` -- with plain ids (no `%`, `_`, backslash) the pattern of one
    instance matches the keys that begin with its prefix;
  * `like_instanceKeyPattern_suffix` -- with any ids it matches all keys of one instance or none
    of them;
  * `historyKey_lt` -- history keys sort by their number;
  * `exists_like_foreign` -- without plain ids it matches a key that is not the instance's;
  * `instance_eq_of_prefix` -- no key of an instance begins with another instance's prefix;
  * `split_metaKey` -- a metadata key is cut back into its parts.
-/
import DevDashboard.Lib.Digits
import DevDashboard.Lib.Like
import DevDashboard.Lib.Str

namespace DevDashboard.StateStore

open Lib Lib.Like

/-! ## 1. Building keys and patterns -/

def keyDelimiter : Str := ['|', '|']
def suffixMetadata : Str := ['m', 'e', 't', 'a', 'd', 'a', 't', 'a']
def suffixCustomStatus : Str :=
  ['c', 'u', 's', 't', 'o', 'm', 'S', 't', 'a', 't', 'u', 's']
def historyPrefix : Str := ['h', 'i', 's', 't', 'o', 'r', 'y', '-']

/-- `"dapr.internal."` -/
def actorTypeHead : Str :=
  ['d', 'a', 'p', 'r', '.', 'i', 'n', 't', 'e', 'r', 'n', 'a', 'l', '.']

/-- `".workflow"` -/
def actorTypeTail : Str := ['.', 'w', 'o', 'r', 'k', 'f', 'l', 'o', 'w']

/-- `WorkflowActorType`: the Dapr workflow actor type for an app. -/
def workflowActorType (ns appID : Str) : Str :=
  actorTypeHead ++ ns ++ ['.'] ++ appID ++ actorTypeTail

/-- `InstanceMetaPattern`: every instance's metadata key for an app. -/
def instanceMetaPattern (ns appID : Str) : Str :=
  appID ++ keyDelimiter ++ workflowActorType ns appID ++ keyDelimiter ++ ['%'] ++
    keyDelimiter ++ suffixMetadata

/-- `InstancePrefix`: the `<appId>||<actorType>||<instanceID>||` prefix. -/
def instancePrefix (ns appID instanceID : Str) : Str :=
  appID ++ keyDelimiter ++ workflowActorType ns appID ++ keyDelimiter ++ instanceID ++ keyDelimiter

/-- `InstanceKeyPattern`: every state key of one instance. -/
def instanceKeyPattern (ns appID instanceID : Str) : Str :=
  instancePrefix ns appID instanceID ++ ['%']

/-- `ParseInstanceID`: the instance-id segment of a key. -/
def parseInstanceID (key : Str) : Option Str :=
  match Str.split keyDelimiter key with
  | _ :: _ :: id :: _ => if id = [] then none else some id
  | _ => none

/-- `AllInstanceMetaPattern`: every instance's metadata key across all app-ids. -/
def allInstanceMetaPattern (ns : Str) : Str :=
  ['%'] ++ keyDelimiter ++ actorTypeHead ++ ns ++ ['.'] ++ ['%'] ++
    actorTypeTail ++ keyDelimiter ++ ['%'] ++ keyDelimiter ++ suffixMetadata

/-- `ParseAppID`: the app-id segment of a key. -/
def parseAppID (key : Str) : Option Str :=
  match Str.split keyDelimiter key with
  | app :: _ :: _ :: _ => if app = [] then none else some app
  | _ => none

/-- `HistoryKey`: `history-` and the index, zero-padded to at least six digits. -/
def historyKey (i : Nat) : Str := historyPrefix ++ Digits.padDigits 6 i

/-- The key of an instance's metadata record. -/
def metaKey (ns appID instanceID : Str) : Str := instancePrefix ns appID instanceID ++ suffixMetadata

/-! ## 2. The patterns and `LIKE` -/

theorem plain_instancePrefix {ns app id : Str} :
    Plain (instancePrefix ns app id) ↔ Plain ns ∧ Plain app ∧ Plain id := by
  have h1 : Plain keyDelimiter := by decide
  have h2 : Plain actorTypeHead := by decide
  have h3 : Plain ['.'] := by decide
  have h4 : Plain actorTypeTail := by decide
  simp only [instancePrefix, workflowActorType, plain_append, h1, h2, h3, h4, true_and, and_true]
  exact ⟨fun h => ⟨h.1.2.1, h.1.1, h.2⟩, fun h => ⟨⟨h.2.1, h.1, h.2.1⟩, h.2.2⟩⟩

/-- An instance prefix ends in the delimiter, so it never ends inside an escape. -/
theorem exists_parse_instancePrefix (ns app id : Str) :
    ∃ ts, parse (instancePrefix ns app id) = some ts := by
  have h : instancePrefix ns app id =
      (app ++ keyDelimiter ++ workflowActorType ns app ++ keyDelimiter ++ id) ++ ['|', '|'] := by
    simp [instancePrefix, keyDelimiter]
  rw [h]
  exact exists_parse_of_ends (by decide) (by decide) false _

/-- **One instance's pattern, plain ids**: it matches the keys that begin with the prefix. -/
theorem like_instanceKeyPattern {ns app id : Str} (h : Plain ns ∧ Plain app ∧ Plain id) (k : Str) :
    like (instanceKeyPattern ns app id) k = true ↔ instancePrefix ns app id <+: k := by
  have hp := parse_of_plain (plain_instancePrefix.mpr h)
  rw [instanceKeyPattern, like_append_percent hp]
  constructor
  · rintro ⟨u, v, rfl, hu⟩
    exact ⟨v, by rw [(matchToks_map_lit _ _).mp hu]⟩
  · rintro ⟨v, rfl⟩
    exact ⟨_, v, rfl, (matchToks_map_lit _ _).mpr rfl⟩

/-- **One instance's pattern, any ids**: it does not look at what follows the last delimiter. -/
theorem like_instanceKeyPattern_suffix (ns app id : Str) {k sfx : Str} (hs : '|' ∉ sfx) :
    like (instanceKeyPattern ns app id) (k ++ sfx) = true ↔
      like (instanceKeyPattern ns app id) k = true := by
  have he : instancePrefix ns app id = (app ++ keyDelimiter ++ workflowActorType ns app ++
      keyDelimiter ++ id ++ ['|']) ++ ['|'] := by simp [instancePrefix, keyDelimiter]
  obtain ⟨ts, hts⟩ := exists_parse_instancePrefix ns app id
  rw [he] at hts
  rw [instanceKeyPattern, he]
  exact like_percent_of_not_mem (by decide) hts hs

/-- Whatever one instance's pattern matches has a delimiter in it. -/
theorem bar_mem_of_like {ns app id k : Str}
    (h : like (instanceKeyPattern ns app id) k = true) : '|' ∈ k := by
  have he : instancePrefix ns app id = (app ++ keyDelimiter ++ workflowActorType ns app ++
      keyDelimiter ++ id ++ ['|']) ++ ['|'] := by simp [instancePrefix, keyDelimiter]
  obtain ⟨ts, hts⟩ := exists_parse_instancePrefix ns app id
  obtain ⟨u, v, rfl, hu⟩ := (like_append_percent hts k).mp h
  rw [he] at hts
  obtain ⟨us, rfl⟩ := parse_snoc (by decide) hts
  obtain ⟨w, x, rfl, -, hx⟩ := (matchToks_append _ _ _).mp hu
  obtain ⟨y, rfl, -⟩ := (matchToks_lit _ _ _).mp hx
  simp

/-- **One app's pattern, plain ids**: it matches the metadata keys of its instances. -/
theorem like_instanceMetaPattern {ns app : Str} (h : Plain ns ∧ Plain app) (id : Str) :
    like (instanceMetaPattern ns app) (metaKey ns app id) = true := by
  have hpre : Plain (app ++ keyDelimiter ++ workflowActorType ns app ++ keyDelimiter) := by
    have h1 : Plain keyDelimiter := by decide
    have h2 : Plain actorTypeHead := by decide
    have h3 : Plain ['.'] := by decide
    have h4 : Plain actorTypeTail := by decide
    simp only [workflowActorType, plain_append, h1, h2, h3, h4, h.1, h.2, and_self]
  have he : instanceMetaPattern ns app = (app ++ keyDelimiter ++ workflowActorType ns app ++
      keyDelimiter) ++ ('%' :: (keyDelimiter ++ suffixMetadata)) := by simp [instanceMetaPattern]
  rw [he]
  refine (like_plain_append hpre _).mpr ⟨id ++ (keyDelimiter ++ suffixMetadata), ?_,
    like_percent_append id (by decide)⟩
  simp [metaKey, instancePrefix]

/-- What it matches begins with the app-id and a delimiter. -/
theorem app_eq_of_like {ns app app' id : Str} (h : Plain ns ∧ Plain app) (hb : '|' ∉ app)
    (hb' : '|' ∉ app') (hl : like (instanceMetaPattern ns app) (metaKey ns app' id) = true) :
    app' = app := by
  have he : instanceMetaPattern ns app = app ++ (keyDelimiter ++ workflowActorType ns app ++
      keyDelimiter ++ ['%'] ++ keyDelimiter ++ suffixMetadata) := by simp [instanceMetaPattern]
  rw [he] at hl
  obtain ⟨v, hv, hl⟩ := (like_plain_append h.2 _).mp hl
  have hd : Plain keyDelimiter := by decide
  simp only [List.append_assoc] at hl
  obtain ⟨w, rfl, -⟩ := (like_plain_append hd _).mp hl
  simp only [metaKey, instancePrefix, keyDelimiter, List.append_assoc, List.cons_append,
    List.nil_append] at hv
  exact (Str.append_cons_inj hb' hb hv).1

/-- The pattern over all apps, plain namespace. -/
theorem like_allInstanceMetaPattern {ns : Str} (h : Plain ns) (app id : Str) :
    like (allInstanceMetaPattern ns) (metaKey ns app id) = true := by
  have h1 : Plain (keyDelimiter ++ actorTypeHead ++ ns ++ ['.']) := by
    have h1 : Plain keyDelimiter := by decide
    have h2 : Plain actorTypeHead := by decide
    have h3 : Plain ['.'] := by decide
    simp only [plain_append, h1, h2, h3, h, and_self]
  have h2 : Plain (actorTypeTail ++ keyDelimiter) := by decide
  have he : allInstanceMetaPattern ns = '%' :: ((keyDelimiter ++ actorTypeHead ++ ns ++ ['.']) ++
      ('%' :: ((actorTypeTail ++ keyDelimiter) ++ ('%' :: (keyDelimiter ++ suffixMetadata))))) := by
    simp [allInstanceMetaPattern]
  have hk : metaKey ns app id = app ++ ((keyDelimiter ++ actorTypeHead ++ ns ++ ['.']) ++
      (app ++ ((actorTypeTail ++ keyDelimiter) ++ (id ++ (keyDelimiter ++ suffixMetadata))))) := by
    simp [metaKey, instancePrefix, workflowActorType]
  rw [he, hk]
  refine like_percent_append app ((like_plain_append h1 _).mpr ⟨_, rfl, ?_⟩)
  refine like_percent_append app ((like_plain_append h2 _).mpr ⟨_, rfl, ?_⟩)
  exact like_percent_append id (by decide)

/-- A pattern with a meta-character in one of its ids matches a key of no concern of it. -/
theorem exists_like_foreign {ns app id : Str} (h : ¬ (Plain ns ∧ Plain app ∧ Plain id)) :
    ∃ k, like (instanceKeyPattern ns app id) k = true ∧ ¬ instancePrefix ns app id <+: k := by
  obtain ⟨ts, hts⟩ := exists_parse_instancePrefix ns app id
  exact exists_like_not_prefix hts fun hp => h (plain_instancePrefix.mp hp)

/-! ## 3. History keys -/

theorem prefix_historyKey (i : Nat) : historyPrefix <+: historyKey i := List.prefix_append _ _

theorem bar_not_mem_historyKey (i : Nat) : '|' ∉ historyKey i := by
  have hp : '|' ∉ historyPrefix := by decide
  have hd : '|' ∉ Digits.padDigits 6 i := fun hm =>
    absurd (Digits.isDigit_of_mem_padDigits hm) (by decide)
  simp only [historyKey, List.mem_append, not_or]
  exact ⟨hp, hd⟩

/-- **History keys sort by their number**, behind any prefix and up to six digits. -/
theorem historyKey_lt (pre : Str) {i j : Nat} (h : i < j) (hj : j < 1000000) :
    pre ++ historyKey i < pre ++ historyKey j :=
  List.append_left_lt (List.append_left_lt (Digits.padDigits_lt (by decide) h hj))

/-! ## 4. One key, one instance -/

theorem bar_not_mem_actorType {ns app : Str} (hns : '|' ∉ ns) (happ : '|' ∉ app) :
    '|' ∉ workflowActorType ns app := by
  have h1 : '|' ∉ actorTypeHead := by decide
  have h2 : '|' ∉ actorTypeTail := by decide
  simp [workflowActorType, h1, h2, hns, happ]

/-- **No key of an instance begins with another instance's prefix.** The key's own ids and its
    suffix are free of `|`, so its three delimiters are the only bars it has, and a prefix it
    begins with has used all of them. -/
theorem instance_eq_of_prefix {ns app id ns' app' id' sfx : Str} (hns : '|' ∉ ns')
    (happ : '|' ∉ app') (hid : '|' ∉ id') (hsfx : '|' ∉ sfx)
    (h : instancePrefix ns app id <+: instancePrefix ns' app' id' ++ sfx) :
    ns = ns' ∧ app = app' ∧ id = id' := by
  obtain ⟨r, hr⟩ := h
  have hact := bar_not_mem_actorType hns happ
  -- count the bars
  have hc := congrArg (List.count '|') hr
  have z : ∀ {l : Str}, '|' ∉ l → l.count '|' = 0 := List.count_eq_zero_of_not_mem
  have hd : keyDelimiter.count '|' = 2 := by decide
  simp only [instancePrefix, List.count_append, z hact, z happ, z hid, z hsfx, hd] at hc
  have happ0 : '|' ∉ app := List.count_eq_zero.mp (by omega)
  have hact0 : '|' ∉ workflowActorType ns app := List.count_eq_zero.mp (by omega)
  have hid0 : '|' ∉ id := List.count_eq_zero.mp (by omega)
  -- cut both at their first bar, three times
  simp only [instancePrefix, keyDelimiter, List.append_assoc, List.cons_append,
    List.nil_append] at hr
  obtain ⟨rfl, h1⟩ := Str.append_cons_inj happ0 happ hr
  obtain ⟨h2, h3⟩ := Str.append_cons_inj hact0 hact (List.cons.inj h1).2
  obtain ⟨rfl, _⟩ := Str.append_cons_inj hid0 hid (List.cons.inj h3).2
  refine ⟨?_, rfl, rfl⟩
  simpa [workflowActorType] using h2

/-! ## 5. Parsing a metadata key back -/

theorem bar_mem_of_delim {v r : Str} (hv : v ≠ []) (h : keyDelimiter <+: v ++ r) : '|' ∈ v := by
  obtain ⟨x, hx⟩ := h
  cases v with
  | nil => exact absurd rfl hv
  | cons c v => exact (List.cons.inj hx).1 ▸ List.mem_cons_self

/-- A delimiter that starts in front of a dot ends in front of it. -/
theorem delim_before_dot {w r : Str} (h : keyDelimiter <+: w ++ '.' :: r) : keyDelimiter <+: w := by
  obtain ⟨x, hx⟩ := h
  cases w with
  | nil => exact absurd (List.cons.inj hx).1 (by decide)
  | cons c w =>
      cases w with
      | nil => exact absurd (List.cons.inj (List.cons.inj hx).2).1 (by decide)
      | cons d w =>
          refine ⟨w, ?_⟩
          rw [← (List.cons.inj hx).1, ← (List.cons.inj (List.cons.inj hx).2).1]
          rfl

theorem sepFree_of_not_mem {a : Str} (h : '|' ∉ a) : Str.SepFree keyDelimiter a := by
  rintro u v rfl hv hp
  exact h (List.mem_append_right u (bar_mem_of_delim hv hp))

/-- An actor type hides a delimiter only if the namespace does: next to it stand dots, and the
    app-id has no bar. -/
theorem sepFree_actorType {ns app : Str} (hns : ¬ keyDelimiter <:+: ns) (happ : '|' ∉ app) :
    Str.SepFree keyDelimiter (workflowActorType ns app) := by
  intro u v huv hv hp
  have htail : '|' ∉ '.' :: (app ++ actorTypeTail) := by
    have h2 : '|' ∉ actorTypeTail := by decide
    simp [h2, happ]
  have hact : workflowActorType ns app = actorTypeHead ++ ns ++ '.' :: (app ++ actorTypeTail) := by
    simp [workflowActorType]
  rw [hact] at huv
  -- `v` begins with the delimiter: not behind the namespace, so it begins before its end
  rcases List.append_eq_append_iff.mp huv with ⟨w, rfl, hw⟩ | ⟨w, hw, rfl⟩
  · exact htail (hw ▸ List.mem_append_right _ (bar_mem_of_delim hv hp))
  · have hin : keyDelimiter <+: w := delim_before_dot (by simpa using hp)
    rcases List.append_eq_append_iff.mp hw with ⟨x, rfl, rfl⟩ | ⟨x, hx, rfl⟩
    · exact hns (hin.isInfix.trans (List.suffix_append x w).isInfix)
    · cases x with
      | nil => exact hns (by simpa using hin.isInfix)
      | cons y x =>
          have hb : '|' ∈ actorTypeHead := hx ▸ List.mem_append_right _
            (bar_mem_of_delim (by simp) hin)
          exact absurd hb (by decide)

/-- **A metadata key is cut back into its parts**, for a namespace without a delimiter and ids
    without a bar. -/
theorem split_metaKey {ns app id : Str} (hns : ¬ keyDelimiter <:+: ns) (happ : '|' ∉ app)
    (hid : '|' ∉ id) :
    Str.split keyDelimiter (metaKey ns app id) =
      [app, workflowActorType ns app, id, suffixMetadata] := by
  have hd : keyDelimiter ≠ [] := by decide
  have he : metaKey ns app id = app ++ keyDelimiter ++ (workflowActorType ns app ++ keyDelimiter ++
      (id ++ keyDelimiter ++ suffixMetadata)) := by
    simp [metaKey, instancePrefix]
  rw [he, Str.split_append hd (sepFree_of_not_mem happ),
    Str.split_append hd (sepFree_actorType hns happ), Str.split_append hd (sepFree_of_not_mem hid),
    Str.split_of_no_sep (by decide)]

theorem parseAppID_metaKey {ns app id : Str} (hns : ¬ keyDelimiter <:+: ns) (happ : '|' ∉ app)
    (hid : '|' ∉ id) : parseAppID (metaKey ns app id) = if app = [] then none else some app := by
  rw [parseAppID, split_metaKey hns happ hid]

theorem parseInstanceID_metaKey {ns app id : Str} (hns : ¬ keyDelimiter <:+: ns)
    (happ : '|' ∉ app) (hid : '|' ∉ id) :
    parseInstanceID (metaKey ns app id) = if id = [] then none else some id := by
  rw [parseInstanceID, split_metaKey hns happ hid]

end DevDashboard.StateStore
