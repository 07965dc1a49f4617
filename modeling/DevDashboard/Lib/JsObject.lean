/-
  File:      DevDashboard/Lib/JsObject.lean
  Subject:   PLAIN OBJECTS OF JAVASCRIPT, used as maps.

  An object is the list of its own properties in the order the language lists them: the array
  indices first, ascending, then the other names as they were added. The structure carries that
  order, so no name occurs twice.

  * `define` is the property of a literal, `{...m, [k]: v}`; `assign` is `m[k] = v`, which on an
    object of its own class sets the prototype where the name is `__proto__`;
  * `get_define`, `get_erase` -- what the operations do to a lookup;
  * `entries_build` -- **copying property by property** keeps the entries, if they come in an
    order that objects have and none is `__proto__`;
  * `get_build`, `filter_build` -- the lookups and the order of the others, whatever the order.
-/
import DevDashboard.Lib.Str

namespace DevDashboard.Lib

/-! ## 1. The order of properties -/

/-- The number a name stands for, if it is an array index: a number below `2^32 - 1`, written
    without leading zeros. -/
def arrayIndex? (s : Str) : Option Nat :=
  let n := Nat.ofDigitChars 10 s 0
  if Nat.toDigits 10 n = s ∧ n < 2 ^ 32 - 1 then some n else none

theorem eq_of_arrayIndex? {s : Str} {n : Nat} (h : arrayIndex? s = some n) :
    Nat.toDigits 10 n = s := by
  simp only [arrayIndex?] at h
  split at h
  · next hc =>
      obtain rfl := Option.some.inj h
      exact hc.1
  · exact absurd h (by simp)

/-- `a` may be listed before a new name `b`. -/
def before (a b : Str) : Bool :=
  match arrayIndex? b with
  | none => true
  | some j =>
      match arrayIndex? a with
      | none => false
      | some i => decide (i < j)

/-- Two names in the order in which an object lists them. -/
def Precedes (a b : Str) : Prop := a ≠ b ∧ before a b = true

instance : DecidableRel Precedes := fun a b => inferInstanceAs (Decidable (a ≠ b ∧ _))

theorem before_of_not_index {a b : Str} (h : arrayIndex? b = none) : before a b = true := by
  simp [before, h]

/-- A name that a new name is not listed after comes after it, and so does all that follows. -/
theorem precedes_of_not_before {k a : Str} (h : before a k = false) (hne : a ≠ k) :
    Precedes k a := by
  refine ⟨Ne.symm hne, ?_⟩
  simp only [before] at h ⊢
  cases hk : arrayIndex? k with
  | none => simp [hk] at h
  | some j =>
      cases ha : arrayIndex? a with
      | none => rfl
      | some i =>
          simp only [hk, ha, decide_eq_false_iff_not, not_lt] at h
          have hij : i ≠ j := fun hij => hne (by
            rw [← eq_of_arrayIndex? ha, ← eq_of_arrayIndex? hk, hij])
          simp only [decide_eq_true_eq]
          omega

theorem precedes_trans_of_not_before {k a b : Str} (h : before a k = false) (hne : a ≠ k)
    (hab : Precedes a b) (hb : b ≠ k) : Precedes k b := by
  refine ⟨Ne.symm hb, ?_⟩
  have hka := (precedes_of_not_before h hne).2
  have hab := hab.2
  simp only [before] at h hka hab ⊢
  cases hk : arrayIndex? k with
  | none => simp [hk] at h
  | some j =>
      cases hb : arrayIndex? b with
      | none => rfl
      | some i =>
          cases ha : arrayIndex? a with
          | none => simp [hb, ha] at hab
          | some l =>
              simp only [hk, ha, hb, decide_eq_true_eq] at hka hab ⊢
              omega

theorem before_trans {k a b : Str} (hab : before a b = true) (hb : before b k = true) :
    before a k = true := by
  simp only [before] at hab hb ⊢
  cases hk : arrayIndex? k with
  | none => rfl
  | some j =>
      cases hbi : arrayIndex? b with
      | none => simp [hk, hbi] at hb
      | some i =>
          cases ha : arrayIndex? a with
          | none => simp [hbi, ha] at hab
          | some l =>
              simp only [hk, ha, hbi, decide_eq_true_eq] at hab hb ⊢
              omega

/-! ## 2. Lists of properties -/

section Entries

variable {V : Type} {k j : Str} {v : V} {es : List (Str × V)}

/-- Properties in the order in which an object lists them. -/
def Ordered (es : List (Str × V)) : Prop := es.Pairwise fun a b => Precedes a.1 b.1

instance (es : List (Str × V)) : Decidable (Ordered es) :=
  inferInstanceAs (Decidable (List.Pairwise _ es))

/-- A property is overwritten in its place; a new one is put where its name belongs. -/
def put (k : Str) (v : V) : List (Str × V) → List (Str × V)
  | [] => [(k, v)]
  | e :: es =>
      if e.1 = k then (k, v) :: es
      else if before e.1 k then e :: put k v es
      else (k, v) :: e :: es

theorem mem_put {e : Str × V} (h : e ∈ put k v es) : e = (k, v) ∨ e ∈ es := by
  induction es with
  | nil => exact .inl (List.mem_singleton.mp h)
  | cons d es ih =>
      simp only [put] at h
      split at h
      · exact (List.mem_cons.mp h).imp_right (List.mem_cons_of_mem d)
      · split at h
        · rcases List.mem_cons.mp h with rfl | h
          · exact .inr List.mem_cons_self
          · exact (ih h).imp_right (List.mem_cons_of_mem d)
        · exact List.mem_cons.mp h

theorem ordered_put (h : Ordered es) (k : Str) (v : V) : Ordered (put k v es) := by
  induction es with
  | nil => exact List.pairwise_singleton _ _
  | cons e es ih =>
      obtain ⟨he, hes⟩ := List.pairwise_cons.mp h
      simp only [put]
      split
      · next hk => exact List.pairwise_cons.mpr ⟨fun d hd => hk ▸ he d hd, hes⟩
      · next hk =>
          split
          · next hb =>
              refine List.pairwise_cons.mpr ⟨fun d hd => ?_, ih hes⟩
              rcases mem_put hd with rfl | hd
              · exact ⟨hk, hb⟩
              · exact he d hd
          · next hb =>
              have hb' := Bool.eq_false_iff.mpr hb
              refine List.pairwise_cons.mpr ⟨fun d hd => ?_, h⟩
              rcases List.mem_cons.mp hd with rfl | hd
              · exact precedes_of_not_before hb' hk
              · -- no later property has the name: it would be listed before `e`
                have hdk : d.1 ≠ k := fun hdk => hb (hdk ▸ (he d hd).2)
                exact precedes_trans_of_not_before hb' hk (he d hd) hdk

theorem lookup_cons_ite (j : Str) (e : Str × V) (es : List (Str × V)) :
    (e :: es).lookup j = if j = e.1 then some e.2 else es.lookup j := by
  rw [List.lookup_cons]
  by_cases h : j = e.1
  · simp [h]
  · rw [if_neg h, beq_eq_false_iff_ne.mpr h]

theorem lookup_put (j : Str) (v : V) (h : Ordered es) :
    (put k v es).lookup j = if j = k then some v else es.lookup j := by
  induction es with
  | nil => rw [put, lookup_cons_ite]
  | cons e es ih =>
      obtain ⟨he, hes⟩ := List.pairwise_cons.mp h
      simp only [put]
      split
      · next hk =>
          rw [lookup_cons_ite, lookup_cons_ite, hk]
          split <;> rfl
      · next hk =>
          split
          · rw [lookup_cons_ite, lookup_cons_ite, ih hes]
            by_cases hj : j = e.1
            · simp [hj, hk]
            · simp [hj]
          · rw [lookup_cons_ite]

/-- A name that belongs after all the others is added at the end. -/
theorem put_of_forall_precedes (h : ∀ e ∈ es, Precedes e.1 k) : put k v es = es ++ [(k, v)] := by
  induction es with
  | nil => rfl
  | cons e es ih =>
      obtain ⟨he, hes⟩ := List.forall_mem_cons.mp h
      rw [put, if_neg he.1, if_pos he.2, ih hes, List.cons_append]

theorem not_mem_of_lookup_eq_none (h : es.lookup k = none) : ∀ e ∈ es, e.1 ≠ k := by
  intro e he hk
  have := List.lookup_eq_none_iff.mp h e he
  simp [hk] at this

theorem lookup_isSome_of_mem {e : Str × V} (he : e ∈ es) : (es.lookup e.1).isSome = true := by
  cases h : es.lookup e.1 with
  | none => exact absurd rfl (not_mem_of_lookup_eq_none h e he)
  | some v => rfl

theorem mem_of_lookup (h : es.lookup k = some v) : (k, v) ∈ es := by
  induction es with
  | nil => exact absurd h (by simp)
  | cons e es ih =>
      rw [lookup_cons_ite] at h
      split at h
      · next hk =>
          rw [hk, ← Option.some.inj h]
          exact List.mem_cons_self
      · exact List.mem_cons_of_mem e (ih h)

theorem Ordered.nodup (h : Ordered es) : (es.map Prod.fst).Nodup :=
  List.pairwise_map.mpr (h.imp fun hp => hp.1)

/-- A property of an object is found under its name. -/
theorem Ordered.lookup_of_mem (h : Ordered es) (hm : (k, v) ∈ es) : es.lookup k = some v := by
  induction es with
  | nil => exact absurd hm List.not_mem_nil
  | cons e es ih =>
      obtain ⟨he, hes⟩ := List.pairwise_cons.mp h
      rw [lookup_cons_ite]
      rcases List.mem_cons.mp hm with rfl | hm
      · rw [if_pos rfl]
      · rw [if_neg (Ne.symm (he _ hm).1)]
        exact ih hes hm

theorem lookup_filter_ne (es : List (Str × V)) (k j : Str) :
    (es.filter fun e => decide (e.1 ≠ k)).lookup j = if j = k then none else es.lookup j := by
  induction es with
  | nil => simp
  | cons e es ih =>
      rw [List.filter_cons]
      by_cases he : e.1 = k
      · rw [if_neg (by simpa using he), ih, lookup_cons_ite, he]
        split <;> rfl
      · rw [if_pos (by simpa using he), lookup_cons_ite, lookup_cons_ite, ih]
        by_cases hj : j = e.1
        · simp [hj, he]
        · simp [hj]

/-- A new name that comes before all the others is listed first. -/
theorem put_of_forall_follows (h : ∀ e ∈ es, e.1 ≠ k ∧ before e.1 k = false) :
    put k v es = (k, v) :: es := by
  cases es with
  | nil => rfl
  | cons e es =>
      obtain ⟨hne, hb⟩ := h e List.mem_cons_self
      rw [put, if_neg hne, if_neg (Bool.eq_false_iff.mp hb)]

/-- Where a name is put does not depend on names that are taken out. -/
theorem filter_put {p : Str → Bool} (h : Ordered es) :
    (put k v es).filter (fun e => p e.1) =
      if p k then put k v (es.filter fun e => p e.1) else es.filter fun e => p e.1 := by
  induction es with
  | nil => cases hp : p k <;> simp [put, hp]
  | cons e es ih =>
      obtain ⟨he, hes⟩ := List.pairwise_cons.mp h
      rw [put]
      split
      · next hk =>
          rw [List.filter_cons, List.filter_cons, hk]
          cases hp : p k with
          | false => simp
          | true => simp [put, hk]
      · next hk =>
          split
          · next hb =>
              rw [List.filter_cons, List.filter_cons, ih hes]
              cases hp : p e.1 with
              | false => simp
              | true => cases hpk : p k <;> simp [put, hk, hb]
          · next hb =>
              have hb' := Bool.eq_false_iff.mpr hb
              rw [List.filter_cons]
              cases hp : p k with
              | false => simp
              | true =>
                  -- what is left of `e` and of what follows it comes after `k`
                  have hall : ∀ d ∈ (e :: es).filter (fun d => p d.1),
                      d.1 ≠ k ∧ before d.1 k = false := by
                    intro d hd
                    rcases List.mem_cons.mp (List.mem_of_mem_filter hd) with rfl | hd
                    · exact ⟨hk, hb'⟩
                    · have hdk : d.1 ≠ k := fun hdk => hb (hdk ▸ (he d hd).2)
                      refine ⟨hdk, Bool.eq_false_iff.mpr fun hdb => hb ?_⟩
                      exact before_trans (he d hd).2 hdb
                  simp only [if_true]
                  rw [put_of_forall_follows hall]

theorem filter_foldl_put {p : Str → Bool} {l : List (Str × V)} (h : Ordered l) :
    (es.foldl (fun l e => put e.1 e.2 l) l).filter (fun e => p e.1) =
      (es.filter fun e => p e.1).foldl (fun l e => put e.1 e.2 l) (l.filter fun e => p e.1) := by
  induction es generalizing l with
  | nil => rfl
  | cons e es ih =>
      rw [List.foldl_cons, ih (ordered_put h e.1 e.2), filter_put h, List.filter_cons]
      cases p e.1 <;> rfl

/-- Properties that come in order, put one after the other. -/
theorem foldl_put {l : List (Str × V)} (h : Ordered (l ++ es)) :
    es.foldl (fun l e => put e.1 e.2 l) l = l ++ es := by
  induction es generalizing l with
  | nil => simp
  | cons e es ih =>
      have hput : put e.1 e.2 l = l ++ [e] :=
        put_of_forall_precedes fun d hd =>
          (List.pairwise_append.mp h).2.2 d hd e List.mem_cons_self
      rw [List.foldl_cons, hput, ih, List.append_assoc, List.singleton_append]
      rwa [List.append_assoc, List.singleton_append]

end Entries

/-! ## 3. Objects -/

/-- A plain object with values in `V`. -/
@[ext]
structure Obj (V : Type) where
  entries : List (Str × V)
  ordered : Ordered entries

namespace Obj

variable {V : Type}

instance [DecidableEq V] : DecidableEq (Obj V) := fun m n =>
  decidable_of_iff (m.entries = n.entries) (Obj.ext_iff).symm

/-- `{}`. -/
def empty : Obj V := ⟨[], .nil⟩

/-- `Object.keys(m)`. -/
def keys (m : Obj V) : List Str := m.entries.map Prod.fst

/-- The own property `m[k]`. -/
def get (m : Obj V) (k : Str) : Option V := m.entries.lookup k

/-- `{...m, [k]: v}`. -/
def define (m : Obj V) (k : Str) (v : V) : Obj V := ⟨put k v m.entries, ordered_put m.ordered k v⟩

theorem ordered_erase (m : Obj V) (k : Str) :
    Ordered (m.entries.filter fun e => decide (e.1 ≠ k)) :=
  m.ordered.filter _

/-- `delete m[k]`. -/
def erase (m : Obj V) (k : Str) : Obj V := ⟨_, m.ordered_erase k⟩

/-- The name under which every object finds its prototype. -/
def protoName : Str := "__proto__".toList

/-- `m[k] = v`: where `m` has no property `__proto__` of its own, that name sets its prototype. -/
def assign (m : Obj V) (k : Str) (v : V) : Obj V :=
  if k = protoName ∧ k ∉ m.keys then m else m.define k v

/-- What `Object.prototype` has. -/
def inherited : List Str :=
  ["constructor", "__defineGetter__", "__defineSetter__", "hasOwnProperty", "__lookupGetter__",
    "__lookupSetter__", "isPrototypeOf", "propertyIsEnumerable", "toString", "valueOf", "__proto__",
    "toLocaleString"].map String.toList

/-- `k in m`. -/
def hasProperty (m : Obj V) (k : Str) : Bool := decide (k ∈ m.keys) || decide (k ∈ inherited)

/-- `for (const [k, v] of entries) next[k] = v`, from an empty object. -/
def build (es : List (Str × V)) : Obj V := es.foldl (fun next e => next.assign e.1 e.2) empty

variable {m : Obj V} {k j : Str} {v : V}

theorem get_define (m : Obj V) (k j : Str) (v : V) :
    (m.define k v).get j = if j = k then some v else m.get j :=
  lookup_put j v m.ordered

theorem get_erase (m : Obj V) (k j : Str) : (m.erase k).get j = if j = k then none else m.get j :=
  lookup_filter_ne m.entries k j

theorem get_isSome_iff : (m.get k).isSome = true ↔ k ∈ m.keys := by
  constructor
  · intro h
    obtain ⟨v, hv⟩ := Option.isSome_iff_exists.mp h
    exact List.mem_map.mpr ⟨(k, v), mem_of_lookup hv, rfl⟩
  · intro h
    obtain ⟨e, he, rfl⟩ := List.mem_map.mp h
    exact lookup_isSome_of_mem he

theorem mem_keys_of_get (h : m.get k = some v) : k ∈ m.keys :=
  get_isSome_iff.mp (by rw [h]; rfl)

theorem mem_keys_define : j ∈ (m.define k v).keys ↔ j = k ∨ j ∈ m.keys := by
  rw [← get_isSome_iff, get_define, ← get_isSome_iff]
  by_cases h : j = k <;> simp [h]

theorem mem_keys_erase : j ∈ (m.erase k).keys ↔ j ≠ k ∧ j ∈ m.keys := by
  rw [← get_isSome_iff, get_erase, ← get_isSome_iff]
  by_cases h : j = k <;> simp [h]

theorem ordered_mapVals {W : Type} (m : Obj V) (g : V → W) :
    Ordered (m.entries.map fun e => (e.1, g e.2)) :=
  List.pairwise_map.mpr (m.ordered.imp id)

/-- The object with each value replaced. -/
def mapVals {W : Type} (g : V → W) (m : Obj V) : Obj W := ⟨_, m.ordered_mapVals g⟩

@[simp] theorem keys_mapVals {W : Type} (g : V → W) (m : Obj V) : (m.mapVals g).keys = m.keys := by
  simp only [keys, mapVals, List.map_map]
  rfl

theorem mapVals_mapVals {W X : Type} (g : V → W) (h : W → X) (m : Obj V) :
    (m.mapVals g).mapVals h = m.mapVals fun v => h (g v) := by
  refine Obj.ext ?_
  simp only [mapVals, List.map_map]
  rfl

theorem mapVals_eq_self {g : V → V} (h : ∀ e ∈ m.entries, g e.2 = e.2) : m.mapVals g = m := by
  refine Obj.ext ?_
  refine (List.map_congr_left fun e he => ?_).trans (List.map_id _)
  rw [h e he]
  rfl

theorem mem_keys_of_mem {e : Str × V} (he : e ∈ m.entries) : e.1 ∈ m.keys :=
  List.mem_map_of_mem he

theorem get_of_mem {e : Str × V} (he : e ∈ m.entries) : m.get e.1 = some e.2 :=
  m.ordered.lookup_of_mem he

theorem mem_of_get (h : m.get k = some v) : (k, v) ∈ m.entries :=
  mem_of_lookup h

/-! ## 4. Copying property by property -/

section Build

variable {es : List (Str × V)}

theorem assign_of_ne (hk : k ≠ protoName) : m.assign k v = m.define k v :=
  if_neg fun h => hk h.1

theorem foldl_assign (hk : ∀ e ∈ es, e.1 ≠ protoName) (m : Obj V) :
    es.foldl (fun next e => next.assign e.1 e.2) m =
      es.foldl (fun next e => next.define e.1 e.2) m := by
  induction es generalizing m with
  | nil => rfl
  | cons e es ih =>
      obtain ⟨he, hes⟩ := List.forall_mem_cons.mp hk
      rw [List.foldl_cons, List.foldl_cons, assign_of_ne he]
      exact ih hes _

theorem entries_foldl_define (es : List (Str × V)) (m : Obj V) :
    (es.foldl (fun next e => next.define e.1 e.2) m).entries =
      es.foldl (fun l e => put e.1 e.2 l) m.entries := by
  induction es generalizing m with
  | nil => rfl
  | cons e es ih => exact ih (m.define e.1 e.2)

/-- **A faithful copy**: properties in an order that objects have are copied as they are. -/
theorem entries_build (h : Ordered es) (hk : ∀ e ∈ es, e.1 ≠ protoName) :
    (build es).entries = es := by
  rw [build, foldl_assign hk, entries_foldl_define]
  exact foldl_put h

theorem get_foldl_define (hnd : (es.map Prod.fst).Nodup) (m : Obj V) (j : Str) :
    (es.foldl (fun next e => next.define e.1 e.2) m).get j = (es.lookup j).or (m.get j) := by
  induction es generalizing m with
  | nil => simp
  | cons e es ih =>
      rw [List.map_cons, List.nodup_cons] at hnd
      rw [List.foldl_cons, ih hnd.2, get_define, lookup_cons_ite]
      by_cases hj : j = e.1
      · have hnone : es.lookup j = none := by
          refine List.lookup_eq_none_iff.mpr fun d hd => ?_
          rw [bne_iff_ne, hj]
          exact fun hd' => hnd.1 (hd' ▸ List.mem_map_of_mem hd)
        simp [hj ▸ hnone, hj]
      · simp [hj]

theorem mem_foldl_assign {e : Str × V} (m : Obj V)
    (h : e ∈ (es.foldl (fun next e => next.assign e.1 e.2) m).entries) :
    e ∈ m.entries ∨ e ∈ es := by
  induction es generalizing m with
  | nil => exact .inl h
  | cons d es ih =>
      rcases ih _ h with h | h
      · simp only [assign] at h
        split at h
        · exact .inl h
        · rcases mem_put h with rfl | h
          · exact .inr List.mem_cons_self
          · exact .inl h
      · exact .inr (List.mem_cons_of_mem d h)

/-- A copy has nothing but what was copied. -/
theorem mem_of_mem_build {e : Str × V} (h : e ∈ (build es).entries) : e ∈ es :=
  (mem_foldl_assign empty h).resolve_left List.not_mem_nil

/-- Each property is found in the copy. -/
theorem get_build (hnd : (es.map Prod.fst).Nodup) (hk : ∀ e ∈ es, e.1 ≠ protoName) (j : Str) :
    (build es).get j = es.lookup j := by
  rw [build, foldl_assign hk, get_foldl_define hnd]
  exact Option.or_none

/-- A property `__proto__` is not copied. -/
theorem build_eq_build_filter (es : List (Str × V)) :
    build es = build (es.filter fun e => decide (e.1 ≠ protoName)) := by
  have hfold : ∀ m : Obj V, protoName ∉ m.keys →
      es.foldl (fun next e => next.assign e.1 e.2) m =
        (es.filter fun e => decide (e.1 ≠ protoName)).foldl
          (fun next e => next.assign e.1 e.2) m := by
    induction es with
    | nil => exact fun _ _ => rfl
    | cons e es ih =>
        intro m hm
        rw [List.foldl_cons, List.filter_cons]
        by_cases he : e.1 = protoName
        · rw [if_neg (by simpa using he), he, assign, if_pos ⟨rfl, hm⟩]
          exact ih m hm
        · rw [if_pos (by simpa using he), List.foldl_cons]
          refine ih _ ?_
          rw [assign_of_ne he, mem_keys_define, not_or]
          exact ⟨Ne.symm he, hm⟩
  exact hfold empty List.not_mem_nil

theorem get_build_of_ne (hnd : (es.map Prod.fst).Nodup) {j : Str} (hj : j ≠ protoName) :
    (build es).get j = es.lookup j := by
  have hnd' : ((es.filter fun e => decide (e.1 ≠ protoName)).map Prod.fst).Nodup :=
    hnd.sublist (List.filter_sublist.map _)
  rw [build_eq_build_filter, get_build hnd' fun e he => of_decide_eq_true (List.mem_filter.mp he).2,
    lookup_filter_ne, if_neg hj]

theorem proto_not_mem_build (es : List (Str × V)) : protoName ∉ (build es).keys := by
  rw [build_eq_build_filter]
  intro h
  obtain ⟨e, he, hk⟩ := List.mem_map.mp h
  exact of_decide_eq_true (List.mem_filter.mp (mem_of_mem_build he)).2 hk

/-- Properties that come in order are copied in that order, whatever stands between them. -/
theorem filter_build {p : Str → Bool} (h : Ordered (es.filter fun e => p e.1))
    (hk : ∀ e ∈ es, e.1 ≠ protoName) :
    (build es).entries.filter (fun e => p e.1) = es.filter fun e => p e.1 := by
  rw [build, foldl_assign hk, entries_foldl_define, filter_foldl_put empty.ordered]
  exact foldl_put h

end Build

end Obj

end DevDashboard.Lib
