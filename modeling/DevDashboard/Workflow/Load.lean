/-
  File:      DevDashboard/Workflow/Load.lean
  Subject:   LOADING ONE INSTANCE (`pkg/workflow/service.go`: `Get`, `load`, `loadWithMeta`,
             `loadByScan`, `decodeInstance`).

  An instance is loaded in one of two ways: with the keys its metadata record declares, or with
  the keys a `LIKE` scan finds.

  * `decodeInstance_congr` -- an execution depends on the instance's history keys and its custom
    status only;
  * `loadWithMeta_eq`, `loadByScan_eq` -- what the two loaders decode;
  * `load_agree_iff` -- they agree on every store exactly if the scan's pattern matches the
    instance's own prefix, and no foreign key that could pass for history.
-/
import DevDashboard.Workflow.Decode
import Mathlib.Data.List.Sort
import Mathlib.Data.List.Lex
import Mathlib.Data.Char

namespace DevDashboard.Workflow

open Lib StateStore
open Lib.Like (like)

/-! ## 1. The store as the service reads it -/

/-- `ErrNotFound`, `ErrNoStore`, `ErrStoreUnreachable`, or an error of the backend. -/
inductive LoadError where
  | notFound
  | noStore
  | storeUnreachable (name conn : Str)
  | backend (msg : Str)
  deriving DecidableEq

def LoadError.text : LoadError → Str
  | .notFound => "workflow not found".toList
  | .noStore => "no state store configured".toList
  | .storeUnreachable name conn =>
      "could not connect to state store \"".toList ++ name ++ "\" (".toList ++ conn ++ ")".toList
  | .backend msg => msg

/-- The read half of `statestore.Store`. `keys` takes a pattern, a token and a page size. -/
structure StoreReads where
  keys : Str → Str → Nat → Except LoadError (List Str × Str)
  get : Str → Except LoadError (Option Bytes)
  bulkGet : List Str → Except LoadError (List (Str × Option Bytes))

/-- The store answers from the content `c`, without errors. -/
structure Serves (s : StoreReads) (c : Content) : Prop where
  keys : ∀ pattern, ∃ next, s.keys pattern [] 0 = .ok (c.keysLike pattern, next)
  get : ∀ k, s.get k = .ok (c.get k)
  bulkGet : ∀ ks, s.bulkGet ks = .ok (c.bulkGet ks)

/-! ## 2. `decodeInstance` -/

/-- `sort.Strings`. The bytes of two texts compare as their characters do. -/
def sortStrings (ks : List Str) : List Str := ks.mergeSort fun a b => decide (a ≤ b)

/-- A value of `values` that is there and not empty. -/
def hasValue (v : Option Bytes) : Bool := decide (v.getD [] ≠ [])

/-- The history keys among the values, before sorting. -/
def historyKeys (pre : Str) (values : List (Str × Option Bytes)) : List Str :=
  (values.filter fun kv =>
    Str.hasPrefix (Str.trimPrefix kv.1 pre) historyPrefix && hasValue kv.2).map Prod.fst

/-- The custom status among the values: the last one assigned. -/
def customStatus (cd : Codec) (pre : Str) (values : List (Str × Option Bytes)) : Str :=
  values.foldl (fun acc kv =>
    if Str.trimPrefix kv.1 pre = suffixCustomStatus then (kv.2.map cd.text).getD [] else acc) []

/-- `decodeInstance`: missing or empty values and undecodable events are skipped. -/
def decodeInstance (cd : Codec) (appID instanceID pre : Str)
    (values : List (Str × Option Bytes)) : Execution :=
  let history := (sortStrings (historyKeys pre values)).filterMap fun hk =>
    cd.event ((values.lookup hk).join.getD [])
  decodeExecution cd appID instanceID history (customStatus cd pre values)

/-! ## 3. The two loaders -/

/-- The keys a history length declares. -/
def declaredKeys (pre : Str) (n : Nat) : List Str :=
  (List.range n).map (fun i => pre ++ historyKey i) ++ [pre ++ suffixCustomStatus]

/-- `loadByScan`. -/
def loadByScan (cd : Codec) (s : StoreReads) (ns appID instanceID : Str) :
    Except LoadError Execution := do
  let (keys, _) ← s.keys (instanceKeyPattern ns appID instanceID) [] 0
  if keys = [] then throw .notFound
  let values ← s.bulkGet keys
  return decodeInstance cd appID instanceID (instancePrefix ns appID instanceID) values

/-- `loadWithMeta`: the execution, and whether it came from the metadata record. -/
def loadWithMeta (cd : Codec) (s : StoreReads) (ns appID instanceID : Str)
    (record : Option Bytes) : Except LoadError (Execution × Bool) :=
  match historyLength cd record with
  | none => do
      let ex ← loadByScan cd s ns appID instanceID
      return (ex, false)
  | some n => do
      let pre := instancePrefix ns appID instanceID
      let values ← s.bulkGet (declaredKeys pre n)
      return (decodeInstance cd appID instanceID pre values, true)

/-- `load`. -/
def load (cd : Codec) (s : StoreReads) (ns appID instanceID : Str) :
    Except LoadError Execution := do
  let record ← s.get (metaKey ns appID instanceID)
  let (ex, _) ← loadWithMeta cd s ns appID instanceID record
  return ex

/-- `service`, as far as `Get` uses it. `nsResolver` gives an app's own namespace, or nothing. -/
structure Service where
  store : Option StoreReads
  ns : Str
  nsResolver : Option (Str → Str) := none

/-- `effectiveNS`. -/
def Service.effectiveNS (svc : Service) (appID : Str) : Str :=
  if appID = [] then svc.ns
  else
    match svc.nsResolver with
    | none => svc.ns
    | some f => if f appID = [] then svc.ns else f appID

/-- An execution that `Get` takes for missing: no history, pending, no name. -/
def foundNothing (ex : Execution) : Bool :=
  decide (ex.history = [] ∧ ex.summary.status = .pending ∧ ex.summary.name = [])

/-- The last check of `Get`: an execution with nothing in it is not found. -/
def found (ex : Execution) : Except LoadError Execution :=
  if foundNothing ex then .error .notFound else .ok ex

/-- `Get`. -/
def Service.get (cd : Codec) (svc : Service) (appID instanceID : Str) :
    Except LoadError Execution :=
  match svc.store with
  | none => .error .noStore
  | some s => do
      let ex ← load cd s (svc.effectiveNS appID) appID instanceID
      found ex

/-! ## 4. What an execution depends on -/

theorem exists_of_bind_ok {ε α β : Type} {x : Except ε α} {f : α → Except ε β} {b : β}
    (h : x >>= f = .ok b) : ∃ a, x = .ok a ∧ f a = .ok b := by
  cases x with
  | error e => cases h
  | ok a => exact ⟨a, rfl, h⟩

theorem sortStrings_perm (ks : List Str) : (sortStrings ks).Perm ks := List.mergeSort_perm _ _

theorem pairwise_sortStrings (ks : List Str) : (sortStrings ks).Pairwise (· ≤ ·) :=
  List.pairwise_mergeSort' (· ≤ ·) ks

/-- Two lists of the same keys, each once, sort to the same list. -/
theorem sortStrings_congr {ks ls : List Str} (hk : ks.Nodup) (hl : ls.Nodup)
    (h : ∀ k, k ∈ ks ↔ k ∈ ls) : sortStrings ks = sortStrings ls := by
  have hp : (sortStrings ks).Perm (sortStrings ls) :=
    (sortStrings_perm ks).trans (((List.perm_ext_iff_of_nodup hk hl).mpr h).trans
      (sortStrings_perm ls).symm)
  exact hp.eq_of_pairwise' (pairwise_sortStrings ks) (pairwise_sortStrings ls)

theorem mem_bulkGet {c : Content} {ks : List Str} {kv : Str × Option Bytes} :
    kv ∈ c.bulkGet ks ↔ kv.1 ∈ ks ∧ kv.2 = c.get kv.1 := by
  simp only [Content.bulkGet, List.mem_map, List.mem_dedup]
  constructor
  · rintro ⟨k, hk, rfl⟩
    exact ⟨hk, rfl⟩
  · rintro ⟨hk, hv⟩
    exact ⟨kv.1, hk, by rw [← hv]⟩

theorem lookup_bulkGet {c : Content} {ks : List Str} {k : Str} (h : k ∈ ks) :
    (c.bulkGet ks).lookup k = some (c.get k) := by
  have hm : k ∈ ks.dedup := List.mem_dedup.mpr h
  unfold Content.bulkGet
  generalize ks.dedup = ds at hm ⊢
  induction ds with
  | nil => cases hm
  | cons x xs ih =>
      by_cases hx : k = x
      · subst hx
        simp
      · have hb : (k == x) = false := beq_eq_false_iff_ne.mpr hx
        simp only [List.map_cons, List.lookup_cons, hb]
        exact ih ((List.mem_cons.mp hm).resolve_left hx)

theorem mem_historyKeys {pre : Str} {c : Content} {ks : List Str} {k : Str} :
    k ∈ historyKeys pre (c.bulkGet ks) ↔
      k ∈ ks ∧ historyPrefix <+: Str.trimPrefix k pre ∧ hasValue (c.get k) = true := by
  simp only [historyKeys, List.mem_map, List.mem_filter, mem_bulkGet, Bool.and_eq_true,
    Str.hasPrefix_iff, Prod.exists, exists_and_right, exists_eq_right]
  constructor
  · rintro ⟨v, ⟨hk, rfl⟩, hp, hv⟩
    exact ⟨hk, hp, hv⟩
  · rintro ⟨hk, hp, hv⟩
    exact ⟨_, ⟨hk, rfl⟩, hp, hv⟩

theorem nodup_historyKeys (pre : Str) (c : Content) (ks : List Str) :
    (historyKeys pre (c.bulkGet ks)).Nodup := by
  refine List.Nodup.sublist (List.filter_sublist.map Prod.fst) ?_
  rw [Content.bulkGet, List.map_map]
  simpa [Function.comp_def] using List.nodup_dedup ks

/-- A key is taken for the custom status if it is the instance's, or nothing but the suffix. -/
theorem trimPrefix_eq_suffix {k pre sfx : Str} (h : Str.trimPrefix k pre = sfx) :
    k = pre ++ sfx ∨ k = sfx := by
  by_cases hp : pre <+: k
  · obtain ⟨r, rfl⟩ := hp
    rw [Str.trimPrefix_append] at h
    exact .inl (by rw [h])
  · rw [Str.trimPrefix_of_not_prefix hp] at h
    exact .inr h

/-- A key is taken for history if it is the instance's history key, or a foreign key that begins
    as one does. -/
theorem historyPrefix_trimPrefix {k pre : Str} :
    historyPrefix <+: Str.trimPrefix k pre ↔
      pre ++ historyPrefix <+: k ∨ (¬ pre <+: k ∧ historyPrefix <+: k) := by
  by_cases hp : pre <+: k
  · obtain ⟨r, rfl⟩ := hp
    rw [Str.trimPrefix_append, List.prefix_append_right_inj]
    simp
  · rw [Str.trimPrefix_of_not_prefix hp, and_iff_right hp, or_iff_right]
    exact fun h => hp ((List.prefix_append _ _).trans h)

theorem customStatus_bulkGet {cd : Codec} {pre : Str} {c : Content} {ks : List Str}
    (h : suffixCustomStatus ∉ ks) :
    customStatus cd pre (c.bulkGet ks) =
      if pre ++ suffixCustomStatus ∈ ks then
        ((c.get (pre ++ suffixCustomStatus)).map cd.text).getD [] else [] := by
  have key : ∀ (ds : List Str) (acc : Str), suffixCustomStatus ∉ ds →
      (ds.map fun k => (k, c.get k)).foldl (fun acc kv =>
        if Str.trimPrefix kv.1 pre = suffixCustomStatus then (kv.2.map cd.text).getD []
        else acc) acc =
      if pre ++ suffixCustomStatus ∈ ds then
        ((c.get (pre ++ suffixCustomStatus)).map cd.text).getD [] else acc := by
    intro ds
    induction ds with
    | nil => exact fun _ _ => rfl
    | cons k ds ih =>
        intro acc hk
        rw [List.mem_cons, not_or] at hk
        rw [List.map_cons, List.foldl_cons, ih _ hk.2]
        by_cases ht : Str.trimPrefix k pre = suffixCustomStatus
        · obtain rfl := (trimPrefix_eq_suffix ht).resolve_right (Ne.symm hk.1)
          simp
        · have hne : pre ++ suffixCustomStatus ≠ k := fun he => ht (by
            rw [← he, Str.trimPrefix_append])
          simp [ht, hne]
  refine (key ks.dedup [] fun hm => h (List.mem_dedup.mp hm)).trans ?_
  exact if_congr List.mem_dedup rfl rfl

/-- The events of the given history keys of a content. -/
def historyOf (cd : Codec) (c : Content) (keys : List Str) : List ProtoEvent :=
  (sortStrings keys).filterMap fun hk => cd.event ((c.get hk).getD [])

theorem decodeInstance_bulkGet (cd : Codec) (appID instanceID pre : Str) (c : Content)
    (ks : List Str) :
    decodeInstance cd appID instanceID pre (c.bulkGet ks) =
      decodeExecution cd appID instanceID (historyOf cd c (historyKeys pre (c.bulkGet ks)))
        (customStatus cd pre (c.bulkGet ks)) := by
  have h : ∀ hk ∈ sortStrings (historyKeys pre (c.bulkGet ks)),
      cd.event (((c.bulkGet ks).lookup hk).join.getD []) = cd.event ((c.get hk).getD []) := by
    intro hk hm
    have hm' := mem_historyKeys.mp ((sortStrings_perm _).mem_iff.mp hm)
    rw [lookup_bulkGet hm'.1]
    rfl
  unfold decodeInstance historyOf
  simp only
  rw [List.filterMap_congr h]

/-- **An execution depends on the instance's history keys and its custom status only**: two key
    lists that agree on these decode to the same execution. -/
theorem decodeInstance_congr {cd : Codec} {appID instanceID pre : Str} {c : Content}
    {ks ls : List Str} (hks : suffixCustomStatus ∉ ks) (hls : suffixCustomStatus ∉ ls)
    (hh : ∀ k ∈ c.keys, historyPrefix <+: Str.trimPrefix k pre → (k ∈ ks ↔ k ∈ ls))
    (hc : pre ++ suffixCustomStatus ∈ c.keys →
      (pre ++ suffixCustomStatus ∈ ks ↔ pre ++ suffixCustomStatus ∈ ls)) :
    decodeInstance cd appID instanceID pre (c.bulkGet ks) =
      decodeInstance cd appID instanceID pre (c.bulkGet ls) := by
  have hpresent : ∀ {k : Str}, hasValue (c.get k) = true → k ∈ c.keys := by
    intro k hv
    by_contra hk
    rw [Content.get_eq_none_iff.mpr hk] at hv
    cases hv
  have hhist : historyOf cd c (historyKeys pre (c.bulkGet ks)) =
      historyOf cd c (historyKeys pre (c.bulkGet ls)) := by
    unfold historyOf
    rw [sortStrings_congr (nodup_historyKeys _ _ _) (nodup_historyKeys pre c ls)]
    intro k
    rw [mem_historyKeys, mem_historyKeys]
    constructor
    · rintro ⟨hk, hp, hv⟩
      exact ⟨(hh k (hpresent hv) hp).mp hk, hp, hv⟩
    · rintro ⟨hk, hp, hv⟩
      exact ⟨(hh k (hpresent hv) hp).mpr hk, hp, hv⟩
  rw [decodeInstance_bulkGet, decodeInstance_bulkGet, hhist, customStatus_bulkGet hks,
    customStatus_bulkGet hls]
  by_cases hm : pre ++ suffixCustomStatus ∈ c.keys
  · simp only [hc hm]
  · rw [Content.get_eq_none_iff.mpr hm]
    simp

/-! ## 5. Keys and values of the two loaders -/

theorem mem_declaredKeys {pre k : Str} {n : Nat} :
    k ∈ declaredKeys pre n ↔ (∃ i < n, k = pre ++ historyKey i) ∨ k = pre ++ suffixCustomStatus := by
  simp only [declaredKeys, List.mem_append, List.mem_map, List.mem_range, List.mem_singleton]
  exact or_congr ⟨fun ⟨i, hi, h⟩ => ⟨i, hi, h.symm⟩, fun ⟨i, hi, h⟩ => ⟨i, hi, h.symm⟩⟩ Iff.rfl

theorem prefix_of_mem_declaredKeys {pre k : Str} {n : Nat} (h : k ∈ declaredKeys pre n) :
    pre <+: k := by
  rcases mem_declaredKeys.mp h with ⟨i, -, rfl⟩ | rfl <;> exact List.prefix_append _ _

theorem bar_mem_instancePrefix (ns app id : Str) : '|' ∈ instancePrefix ns app id := by
  simp [instancePrefix, keyDelimiter]

theorem suffix_not_mem_declaredKeys (ns app id : Str) (n : Nat) :
    suffixCustomStatus ∉ declaredKeys (instancePrefix ns app id) n := by
  intro hm
  have := (prefix_of_mem_declaredKeys hm).subset (bar_mem_instancePrefix ns app id)
  exact absurd this (by decide)

theorem suffix_not_mem_keysLike (c : Content) (ns app id : Str) :
    suffixCustomStatus ∉ c.keysLike (instanceKeyPattern ns app id) := by
  intro hm
  exact absurd (bar_mem_of_like (Content.mem_keysLike.mp hm).2) (by decide)

section Loaders

variable {cd : Codec} {s : StoreReads} {c : Content} (hs : Serves s c)

include hs

omit hs in
theorem found_eq_notFound {ex : Execution} :
    found ex = .error .notFound ↔ foundNothing ex = true := by
  unfold found
  split <;> simp_all

theorem loadWithMeta_eq {ns app id : Str} {record : Option Bytes} {n : Nat}
    (h : historyLength cd record = some n) :
    loadWithMeta cd s ns app id record =
      .ok (decodeInstance cd app id (instancePrefix ns app id)
        (c.bulkGet (declaredKeys (instancePrefix ns app id) n)), true) := by
  unfold loadWithMeta
  simp only [h, hs.bulkGet]
  rfl

theorem loadByScan_eq (ns app id : Str) :
    loadByScan cd s ns app id =
      if c.keysLike (instanceKeyPattern ns app id) = [] then .error .notFound
      else .ok (decodeInstance cd app id (instancePrefix ns app id)
        (c.bulkGet (c.keysLike (instanceKeyPattern ns app id)))) := by
  obtain ⟨next, hk⟩ := hs.keys (instanceKeyPattern ns app id)
  unfold loadByScan
  simp only [hk, hs.bulkGet, bind, Except.bind]
  split <;> rfl

/-- What `Get` finds by a usable record. -/
theorem get_of_record {svc : Service} (hsvc : svc.store = some s) {app id : Str} {n : Nat}
    (h : historyLength cd (c.get (metaKey (svc.effectiveNS app) app id)) = some n) :
    svc.get cd app id =
      found (decodeInstance cd app id (instancePrefix (svc.effectiveNS app) app id)
        (c.bulkGet (declaredKeys (instancePrefix (svc.effectiveNS app) app id) n))) := by
  simp only [Service.get, hsvc, load, hs.get, bind, Except.bind, loadWithMeta_eq hs h, pure,
    Except.pure]

/-- What `Get` finds without one: what the scan finds. -/
theorem get_of_no_record {svc : Service} (hsvc : svc.store = some s) {app id : Str}
    (h : historyLength cd (c.get (metaKey (svc.effectiveNS app) app id)) = none) :
    svc.get cd app id = loadByScan cd s (svc.effectiveNS app) app id >>= found := by
  simp only [Service.get, hsvc, load, hs.get, bind, Except.bind, loadWithMeta, h, pure,
    Except.pure]
  cases loadByScan cd s (svc.effectiveNS app) app id with
  | error err => rfl
  | ok ex => rfl

end Loaders

/-! ## 6. The two loaders agree -/

/-- The metadata record declares `n` history entries, and they are there, and no others. -/
structure Declared (cd : Codec) (c : Content) (ns app id : Str) (n : Nat) : Prop where
  length : historyLength cd (c.get (metaKey ns app id)) = some n
  history : ∀ k, (k ∈ c.keys ∧ instancePrefix ns app id ++ historyPrefix <+: k) ↔
    ∃ i < n, k = instancePrefix ns app id ++ historyKey i

/-- The scan's pattern matches the instance's own prefix, and no foreign key that begins as a
    history key does. -/
def ScanExact (ns app id : Str) : Prop :=
  like (instanceKeyPattern ns app id) (instancePrefix ns app id) = true ∧
    ∀ k, like (instanceKeyPattern ns app id) k = true → historyPrefix <+: k →
      instancePrefix ns app id <+: k

theorem load_agree_of_scanExact {cd : Codec} {s : StoreReads} {c : Content} {ns app id : Str}
    {n : Nat} (hx : ScanExact ns app id) (hs : Serves s c) (hd : Declared cd c ns app id n) :
    ∃ ex, loadByScan cd s ns app id = .ok ex ∧
      loadWithMeta cd s ns app id (c.get (metaKey ns app id)) = .ok (ex, true) := by
  have hown : ∀ {sfx : Str}, '|' ∉ sfx →
      instancePrefix ns app id ++ sfx ∈ c.keys →
      instancePrefix ns app id ++ sfx ∈ c.keysLike (instanceKeyPattern ns app id) :=
    fun hb hm => Content.mem_keysLike.mpr ⟨hm, (like_instanceKeyPattern_suffix ns app id hb).mpr hx.1⟩
  have h0 := (hd.history _).mpr ⟨0, (historyLength_bounds hd.length).1, rfl⟩
  have hne : c.keysLike (instanceKeyPattern ns app id) ≠ [] :=
    List.ne_nil_of_mem (hown (bar_not_mem_historyKey 0) h0.1)
  rw [loadByScan_eq hs, loadWithMeta_eq hs hd.length, if_neg hne]
  refine ⟨_, rfl, ?_⟩
  rw [decodeInstance_congr (suffix_not_mem_declaredKeys ns app id n)
    (suffix_not_mem_keysLike c ns app id)]
  · intro k hk hp
    rcases historyPrefix_trimPrefix.mp hp with hp | ⟨hn, hp⟩
    · obtain ⟨i, hi, rfl⟩ := (hd.history k).mp ⟨hk, hp⟩
      exact iff_of_true (mem_declaredKeys.mpr (.inl ⟨i, hi, rfl⟩))
        (hown (bar_not_mem_historyKey i) hk)
    · exact iff_of_false (fun hm => hn (prefix_of_mem_declaredKeys hm))
        fun hm => hn (hx.2 k (Content.mem_keysLike.mp hm).2 hp)
  · intro hm
    exact iff_of_true (mem_declaredKeys.mpr (.inr rfl)) (hown (by decide) hm)

/-- A store that answers from `c`, every scan on one page. -/
def storeOf (c : Content) : StoreReads where
  keys pattern _ _ := .ok (c.keysLike pattern, [])
  get k := .ok (c.get k)
  bulkGet ks := .ok (c.bulkGet ks)

theorem serves_storeOf (c : Content) : Serves (storeOf c) c :=
  ⟨fun _ => ⟨[], rfl⟩, fun _ => rfl, fun _ => rfl⟩

/-- Where every value decodes, there are as many events as keys. -/
theorem length_historyOf {cd : Codec} {c : Content} {ks : List Str} {e : ProtoEvent}
    (h : ∀ k ∈ ks, cd.event ((c.get k).getD []) = some e) : (historyOf cd c ks).length = ks.length := by
  have hc : ∀ k ∈ sortStrings ks, cd.event ((c.get k).getD []) = some ((fun _ => e) k) :=
    fun k hk => h k ((sortStrings_perm ks).mem_iff.mp hk)
  rw [historyOf, List.filterMap_congr hc, List.filterMap_eq_map', List.length_map,
    (sortStrings_perm ks).length_eq]

theorem history_decodeInstance (cd : Codec) (app id pre : Str) (c : Content) (ks : List Str) :
    (decodeInstance cd app id pre (c.bulkGet ks)).history.length =
      (historyOf cd c (historyKeys pre (c.bulkGet ks))).length := by
  rw [decodeInstance_bulkGet]
  simp [decodeExecution]

/-- An instance with one history entry, and a foreign key beside it. -/
def oneEntry (pre : Str) (r b : Bytes) (foreign : List (Str × Bytes))
    (hf : (foreign.map Prod.fst).Nodup) (hp : ∀ kv ∈ foreign, ¬ pre <+: kv.1) : Content where
  entries := [(pre ++ suffixMetadata, r), (pre ++ historyKey 0, b)] ++ foreign
  nodup := by
    have hne : suffixMetadata ≠ historyKey 0 := by decide
    simp only [List.cons_append, List.nil_append, List.map_cons, List.nodup_cons, List.mem_cons,
      List.mem_map, not_or]
    refine ⟨⟨fun h => hne (List.append_cancel_left h), ?_⟩, ?_, hf⟩
    · rintro ⟨kv, hm, he⟩
      exact hp kv hm (he ▸ List.prefix_append _ _)
    · rintro ⟨kv, hm, he⟩
      exact hp kv hm (he ▸ List.prefix_append _ _)

section OneEntry

variable {cd : Codec} {ns app id : Str} {r b : Bytes} {foreign : List (Str × Bytes)}
  {hf : (foreign.map Prod.fst).Nodup}
  {hp : ∀ kv ∈ foreign, ¬ instancePrefix ns app id <+: kv.1}

theorem mem_keys_oneEntry {k : Str} :
    k ∈ (oneEntry (instancePrefix ns app id) r b foreign hf hp).keys ↔
      k = instancePrefix ns app id ++ suffixMetadata ∨ k = instancePrefix ns app id ++ historyKey 0 ∨
        k ∈ foreign.map Prod.fst := by
  simp [oneEntry, Content.keys]

theorem get_oneEntry_history :
    (oneEntry (instancePrefix ns app id) r b foreign hf hp).get
      (instancePrefix ns app id ++ historyKey 0) = some b := by
  have hne : (instancePrefix ns app id ++ historyKey 0 ==
      instancePrefix ns app id ++ suffixMetadata) = false := by
    rw [beq_eq_false_iff_ne]
    exact fun h => absurd (List.append_cancel_left h) (by decide)
  simp [oneEntry, Content.get, hne, List.lookup_cons]

theorem get_oneEntry_foreign {k : Str} (hk : ¬ instancePrefix ns app id <+: k) :
    (oneEntry (instancePrefix ns app id) r b foreign hf hp).get k = foreign.lookup k := by
  have hne : ∀ sfx, (k == instancePrefix ns app id ++ sfx) = false := fun sfx => by
    rw [beq_eq_false_iff_ne]
    exact fun h => hk (h ▸ List.prefix_append _ _)
  simp [oneEntry, Content.get, hne, List.lookup_cons]

theorem declared_oneEntry (hr : historyLength cd (some r) = some 1) :
    Declared cd (oneEntry (instancePrefix ns app id) r b foreign hf hp) ns app id 1 := by
  constructor
  · have hg : (oneEntry (instancePrefix ns app id) r b foreign hf hp).get (metaKey ns app id) =
        some r := by
      simp [oneEntry, Content.get, metaKey]
    rw [hg, hr]
  · intro k
    rw [mem_keys_oneEntry]
    constructor
    · rintro ⟨rfl | rfl | hk, hpre⟩
      · rw [List.prefix_append_right_inj] at hpre
        exact absurd hpre (by decide)
      · exact ⟨0, by decide, rfl⟩
      · obtain ⟨kv, hm, rfl⟩ := List.mem_map.mp hk
        exact absurd ((List.prefix_append _ _).trans hpre) (hp kv hm)
    · rintro ⟨i, hi, rfl⟩
      obtain rfl : i = 0 := by omega
      exact ⟨.inr (.inl rfl), (List.prefix_append_right_inj _).mpr (prefix_historyKey 0)⟩

/-- By its record, the instance alone is read. -/
theorem mem_historyKeys_record (hb : b ≠ []) {k : Str} :
    k ∈ historyKeys (instancePrefix ns app id)
        ((oneEntry (instancePrefix ns app id) r b foreign hf hp).bulkGet
          (declaredKeys (instancePrefix ns app id) 1)) ↔
      k = instancePrefix ns app id ++ historyKey 0 := by
  rw [mem_historyKeys]
  constructor
  · rintro ⟨hk, hh, -⟩
    rcases mem_declaredKeys.mp hk with ⟨i, hi, rfl⟩ | rfl
    · obtain rfl : i = 0 := by omega
      rfl
    · rw [Str.trimPrefix_append] at hh
      exact absurd hh (by decide)
  · rintro rfl
    refine ⟨mem_declaredKeys.mpr (.inl ⟨0, by decide, rfl⟩), ?_, ?_⟩
    · rw [Str.trimPrefix_append]
      exact prefix_historyKey 0
    · rw [get_oneEntry_history]
      simpa [hasValue] using hb

/-- One event by its record. -/
theorem length_history_record (hb : b ≠ []) {e : ProtoEvent} (he : cd.event b = some e) :
    (decodeInstance cd app id (instancePrefix ns app id)
      ((oneEntry (instancePrefix ns app id) r b foreign hf hp).bulkGet
        (declaredKeys (instancePrefix ns app id) 1))).history.length = 1 := by
  rw [history_decodeInstance, length_historyOf (e := e)]
  · refine ((List.perm_ext_iff_of_nodup (nodup_historyKeys _ _ _)
      (List.nodup_singleton (instancePrefix ns app id ++ historyKey 0))).mpr fun k => ?_).length_eq
    rw [mem_historyKeys_record hb, List.mem_singleton]
  · intro k hk
    rw [(mem_historyKeys_record hb).mp hk, get_oneEntry_history]
    exact he

end OneEntry

/-- Two events by a scan that matches the instance's own key and a foreign key that passes for
    history. -/
theorem two_le_length_history_scan {cd : Codec} {ns app id k : Str} {r b : Bytes} {e : ProtoEvent}
    (hb : b ≠ []) (he : cd.event b = some e)
    (hown : like (instanceKeyPattern ns app id) (instancePrefix ns app id) = true)
    (hk : like (instanceKeyPattern ns app id) k = true) (hhist : historyPrefix <+: k)
    {hf : ([(k, b)].map Prod.fst).Nodup}
    {hp : ∀ kv ∈ [(k, b)], ¬ instancePrefix ns app id <+: kv.1} :
    2 ≤ (decodeInstance cd app id (instancePrefix ns app id)
      ((oneEntry (instancePrefix ns app id) r b [(k, b)] hf hp).bulkGet
        ((oneEntry (instancePrefix ns app id) r b [(k, b)] hf hp).keysLike
          (instanceKeyPattern ns app id)))).history.length := by
  have hpre : ¬ instancePrefix ns app id <+: k := hp (k, b) (List.mem_singleton_self _)
  have hgetk : (oneEntry (instancePrefix ns app id) r b [(k, b)] hf hp).get k = some b := by
    rw [get_oneEntry_foreign hpre]
    simp
  have hval : hasValue (some b) = true := by simpa [hasValue] using hb
  rw [history_decodeInstance, length_historyOf (e := e)]
  · have hnodup : [instancePrefix ns app id ++ historyKey 0, k].Nodup := by
      simp only [List.nodup_cons, List.mem_singleton, List.not_mem_nil, not_false_eq_true,
        List.nodup_nil, and_true]
      exact fun heq => hpre (heq ▸ List.prefix_append _ _)
    refine (List.subperm_of_subset hnodup fun x hx => ?_).length_le
    rw [mem_historyKeys, Content.mem_keysLike]
    rcases List.mem_cons.mp hx with rfl | hx
    · refine ⟨⟨Content.mem_keys_of_get get_oneEntry_history, ?_⟩, ?_, ?_⟩
      · exact (like_instanceKeyPattern_suffix ns app id (bar_not_mem_historyKey 0)).mpr hown
      · rw [Str.trimPrefix_append]
        exact prefix_historyKey 0
      · rw [get_oneEntry_history]
        exact hval
    · obtain rfl := List.mem_singleton.mp hx
      refine ⟨⟨Content.mem_keys_of_get hgetk, hk⟩, ?_, by rw [hgetk]; exact hval⟩
      rw [Str.trimPrefix_of_not_prefix hpre]
      exact hhist
  · intro x hx
    obtain ⟨hx1, hx2, -⟩ := mem_historyKeys.mp hx
    rcases mem_keys_oneEntry.mp (Content.mem_keysLike.mp hx1).1 with rfl | rfl | hx
    · rw [Str.trimPrefix_append] at hx2
      exact absurd hx2 (by decide)
    · rw [get_oneEntry_history]
      exact he
    · obtain rfl : x = k := by simpa using hx
      rw [hgetk]
      exact he

/-- **The two loaders agree on every store exactly if the scan is exact**: its pattern matches
    the instance's own prefix and no foreign key that begins as a history key does. Here `b` is
    some event's bytes, and `r` some record that declares one entry. -/
theorem load_agree_iff (cd : Codec) {b r : Bytes} {e : ProtoEvent} (hb : b ≠ [])
    (he : cd.event b = some e) (hr : historyLength cd (some r) = some 1) (ns app id : Str) :
    (∀ s c n, Serves s c → Declared cd c ns app id n →
      ∃ ex, loadByScan cd s ns app id = .ok ex ∧
        loadWithMeta cd s ns app id (c.get (metaKey ns app id)) = .ok (ex, true)) ↔
      ScanExact ns app id := by
  refine ⟨fun h => ?_, fun hx s c n hs hd => load_agree_of_scanExact hx hs hd⟩
  have hlike : like (instanceKeyPattern ns app id) (instancePrefix ns app id) = true := by
    -- otherwise the scan of a store with this instance alone finds nothing
    by_contra hn
    obtain ⟨ex, hscan, -⟩ := h _ _ 1 (serves_storeOf _)
      (@declared_oneEntry cd ns app id r b [] (by simp) (by simp) hr)
    rw [loadByScan_eq (serves_storeOf _), if_pos] at hscan
    · cases hscan
    · rw [List.eq_nil_iff_forall_not_mem]
      intro k hk
      obtain ⟨hm, hl⟩ := Content.mem_keysLike.mp hk
      rcases mem_keys_oneEntry.mp hm with rfl | rfl | hm
      · exact hn ((like_instanceKeyPattern_suffix ns app id (by decide)).mp hl)
      · exact hn ((like_instanceKeyPattern_suffix ns app id (bar_not_mem_historyKey 0)).mp hl)
      · cases hm
  refine ⟨hlike, fun k hk hhist => ?_⟩
  by_contra hpre
  -- a store with this instance and the foreign key: one event by record, two by scan
  have hp : ∀ kv ∈ [(k, b)], ¬ instancePrefix ns app id <+: kv.1 := by
    rintro kv hm
    rw [List.mem_singleton.mp hm]
    exact hpre
  have hf : ([(k, b)].map Prod.fst).Nodup := List.nodup_singleton k
  have hd := @declared_oneEntry cd ns app id r b [(k, b)] hf hp hr
  obtain ⟨ex, hscan, hmeta⟩ := h _ _ 1 (serves_storeOf _) hd
  rw [loadWithMeta_eq (serves_storeOf _) hd.length] at hmeta
  rw [loadByScan_eq (serves_storeOf _)] at hscan
  split at hscan
  · cases hscan
  · have hone := @length_history_record cd ns app id r b [(k, b)] hf hp hb e he
    have htwo := @two_le_length_history_scan cd ns app id k r b e hb he hlike hk hhist hf hp
    rw [(Prod.mk.inj (Except.ok.inj hmeta)).1] at hone
    rw [Except.ok.inj hscan] at htwo
    omega

theorem scanExact_of_plain {ns app id : Str}
    (h : Like.Plain ns ∧ Like.Plain app ∧ Like.Plain id) : ScanExact ns app id :=
  ⟨(like_instanceKeyPattern h _).mpr (List.prefix_refl _),
    fun k hk _ => (like_instanceKeyPattern h k).mp hk⟩

/-- An encoded metadata record: `HistoryLength` 1, `Generation` 1. -/
def lengthOne : Bytes := [0x10, 0x01, 0x18, 0x01]

/-- An encoded `OrchestratorStarted` event without a timestamp. -/
def orchestratorStartedBytes : Bytes := [0x72, 0x00]

/-- Readers that know this record and this event. Nothing has started an execution: its status
    is not one that `NormalizeStatus` names. -/
def tinyCodec : Codec where
  event b := if b = orchestratorStartedBytes then some ⟨0, none, .orchestratorStarted⟩ else none
  metadata b := if b = lengthOne then some 1 else none
  legacy _ := none
  text _ := []
  runtimeState _ _ _ := { status := .unknown }

/-- The instance `42` of the app `shop`, with one history entry. -/
def orderEntry : Content :=
  oneEntry (instancePrefix "d".toList "shop".toList "42".toList) lengthOne
    orchestratorStartedBytes [] (by simp) (by simp)

theorem load_agree_iff_order :
    ScanExact "d".toList "shop".toList "42".toList ∧
      ∃ ex, loadByScan tinyCodec (storeOf orderEntry) "d".toList "shop".toList "42".toList = .ok ex ∧
        loadWithMeta tinyCodec (storeOf orderEntry) "d".toList "shop".toList "42".toList
          (orderEntry.get (metaKey "d".toList "shop".toList "42".toList)) = .ok (ex, true) := by
  have hx : ScanExact "d".toList "shop".toList "42".toList := scanExact_of_plain (by decide)
  have hagree := (load_agree_iff tinyCodec (b := orchestratorStartedBytes) (r := lengthOne)
    (by decide) rfl (by decide) _ _ _).mpr hx
  exact ⟨hx, hagree _ orderEntry 1 (serves_storeOf _) (declared_oneEntry (by decide))⟩

/-- The scan for the instance `a\b` looks for `ab` and finds nothing; its record is loaded. -/
theorem load_disagree :
    ∃ (s : StoreReads) (c : Content) (id : Str), id = "a\\b".toList ∧ Serves s c ∧
      Declared tinyCodec c "d".toList "shop".toList id 1 ∧
      loadByScan tinyCodec s "d".toList "shop".toList id = .error .notFound ∧
      ∃ ex, loadWithMeta tinyCodec s "d".toList "shop".toList id
        (c.get (metaKey "d".toList "shop".toList id)) = .ok (ex, true) := by
  have hd : Declared tinyCodec (oneEntry (instancePrefix "d".toList "shop".toList
      "a\\b".toList) lengthOne orchestratorStartedBytes [] (by simp) (by simp)) "d".toList "shop".toList
        "a\\b".toList 1 := declared_oneEntry (by decide)
  refine ⟨_, _, _, rfl, serves_storeOf _, hd, ?_, _, loadWithMeta_eq (serves_storeOf _) hd.length⟩
  rw [loadByScan_eq (serves_storeOf _), if_pos (by decide)]

end DevDashboard.Workflow
