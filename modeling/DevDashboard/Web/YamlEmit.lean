/-
  File:      DevDashboard/Web/YamlEmit.lean
  Subject:   WHAT THE BUILDERS LEAVE OUT OF THEIR YAML (lib/yaml-emit.ts).

  Before a configuration is written, `recursivelyRemoveEmptyValues` deletes the properties that
  are null, undefined, blank texts or empty containers, at every depth of objects; arrays are
  left as they are. A value is a tree: the code clones its input first. Numbers are values of a
  type `ν`.

  * `hasProp_recursivelyRemoveEmptyValues` -- **the properties of the result**: each property
    whose value is kept, with what is kept of it;
  * `kept_obj_iff` -- of an object its pruned form is kept, unless that has no property;
  * `removeEmpty_of_pruned` -- what has no empty value in it stays as it is;
  * `removeEmpty_exact` -- **pruning is exact**: no empty value is left, each value that says
    something stands where it stood, there is no path but to such a value, and pruning again
    changes nothing.
-/
import DevDashboard.Web.Replay.Share

namespace DevDashboard.Web

open Lib
open Replay (isJsSpace)

/-- A value of JavaScript without functions, symbols and cycles. The properties of an object are
    listed in its order. -/
inductive Value (ν : Type) where
  | undefined
  | null
  | bool (b : Bool)
  | num (x : ν)
  | str (s : Str)
  | arr (items : List (Value ν))
  | obj (fields : List (Str × Value ν))

/-- `s.trim() === ''`. -/
def isBlank (s : Str) : Bool := s.all isJsSpace

namespace Value

variable {ν : Type}

/-! ## 1. What is removed -/

/-- The properties of an object. -/
def props : Value ν → List (Str × Value ν)
  | .obj fields => fields
  | _ => []

/-- The object `v` has the property `k` with the value `x`. -/
def HasProp (v : Value ν) (k : Str) (x : Value ν) : Prop := (k, x) ∈ v.props

/-- `isEmptyContainer`. -/
def isEmptyContainer : Value ν → Bool
  | .arr items => items.isEmpty
  | .obj fields => fields.isEmpty
  | _ => false

/-- The values whose properties are deleted right away. -/
def isRemoved : Value ν → Bool
  | .null => true
  | .undefined => true
  | .str s => isBlank s
  | v => v.isEmptyContainer

mutual

/-- `recursivelyRemoveEmptyValues`. -/
def recursivelyRemoveEmptyValues : Value ν → Value ν
  | .obj fields => .obj (removeEmptyFields fields)
  | v => v

/-- Its loop over the properties of an object. -/
def removeEmptyFields : List (Str × Value ν) → List (Str × Value ν)
  | [] => []
  | (key, v) :: fields =>
      if v.isRemoved then removeEmptyFields fields
      else
        match v with
        | .obj inner =>
            let next := recursivelyRemoveEmptyValues (.obj inner)
            if next.isEmptyContainer then removeEmptyFields fields
            else (key, next) :: removeEmptyFields fields
        | v => (key, v) :: removeEmptyFields fields

end

/-- What is left of a property's value. -/
def kept (v : Value ν) : Option (Value ν) :=
  if v.isRemoved ∨ (recursivelyRemoveEmptyValues v).isEmptyContainer then none
  else some (recursivelyRemoveEmptyValues v)

variable {v x : Value ν} {k : Str}

theorem kept_obj_iff {fields : List (Str × Value ν)} :
    kept (.obj fields) = some x ↔
      x = recursivelyRemoveEmptyValues (.obj fields) ∧ ∃ k y, x.HasProp k y := by
  have hempty : ∀ l : List (Str × Value ν), l.isEmpty = false ↔ ∃ k y, (k, y) ∈ l := by
    intro l
    cases l with
    | nil => simp
    | cons e l => exact ⟨fun _ => ⟨e.1, e.2, List.mem_cons_self⟩, fun _ => rfl⟩
  rw [kept]
  split
  · next h =>
      refine ⟨fun h => absurd h (by simp), fun ⟨hx, k, y, hy⟩ => ?_⟩
      exfalso
      subst hx
      have hne : (removeEmptyFields fields).isEmpty = false := (hempty _).mpr ⟨k, y, hy⟩
      rcases h with h | h
      · have hnil : fields = [] := List.isEmpty_iff.mp h
        subst hnil
        exact absurd hy List.not_mem_nil
      · exact Bool.false_ne_true (hne.symm.trans h)
  · next h =>
      rw [not_or] at h
      constructor
      · intro hx
        obtain rfl := Option.some.inj hx
        exact ⟨rfl, (hempty _).mp (Bool.eq_false_iff.mpr h.2)⟩
      · rintro ⟨rfl, -⟩
        rfl

theorem kept_str_iff {s : Str} : kept (.str s) = some x ↔ isBlank s = false ∧ x = .str s := by
  simp only [kept, isRemoved, recursivelyRemoveEmptyValues, isEmptyContainer, Bool.false_eq_true,
    or_false]
  cases isBlank s with
  | true => simp
  | false => simp [eq_comm]

theorem kept_num (n : ν) : kept (.num n) = some (.num n) := by
  simp [kept, isRemoved, recursivelyRemoveEmptyValues, isEmptyContainer]

/-- A value that is no object is kept as it is, or not at all. -/
theorem kept_of_not_obj (h : ∀ fields, v ≠ .obj fields) :
    kept v = if v.isRemoved then none else some v := by
  cases v with
  | obj fields => exact absurd rfl (h fields)
  | arr items =>
      simp only [kept, isRemoved, recursivelyRemoveEmptyValues, or_self]
      congr
  | str s =>
      simp only [kept, isRemoved, recursivelyRemoveEmptyValues, isEmptyContainer,
        Bool.false_eq_true, or_false]
      congr
  | _ => simp [kept, isRemoved, recursivelyRemoveEmptyValues, isEmptyContainer]

theorem removeEmptyFields_cons_obj (key : Str) (inner fields : List (Str × Value ν)) :
    removeEmptyFields ((key, .obj inner) :: fields) =
      ((kept (.obj inner)).map fun y => (key, y)).toList ++ removeEmptyFields fields := by
  rw [removeEmptyFields, kept]
  by_cases hr : (obj inner).isRemoved = true
  · rw [if_pos hr, if_pos (.inl hr)]
    rfl
  · rw [if_neg hr]
    by_cases hc : (recursivelyRemoveEmptyValues (.obj inner)).isEmptyContainer = true
    · rw [if_pos hc, if_pos (.inr hc)]
      rfl
    · rw [if_neg hc, if_neg (not_or.mpr ⟨hr, hc⟩)]
      rfl

theorem removeEmptyFields_cons (e : Str × Value ν) (fields : List (Str × Value ν)) :
    removeEmptyFields (e :: fields) =
      ((kept e.2).map fun y => (e.1, y)).toList ++ removeEmptyFields fields := by
  obtain ⟨key, v⟩ := e
  by_cases hobj : ∃ inner, v = .obj inner
  · obtain ⟨inner, rfl⟩ := hobj
    exact removeEmptyFields_cons_obj key inner fields
  · have hobj : ∀ inner, v ≠ .obj inner := fun inner h => hobj ⟨inner, h⟩
    rw [removeEmptyFields, kept_of_not_obj hobj]
    · by_cases hr : v.isRemoved = true
      · rw [if_pos hr, if_pos hr]
        rfl
      · rw [if_neg hr, if_neg hr]
        rfl
    · exact hobj

theorem mem_removeEmptyFields {fields : List (Str × Value ν)} :
    (k, x) ∈ removeEmptyFields fields ↔ ∃ y, (k, y) ∈ fields ∧ kept y = some x := by
  induction fields with
  | nil => simp [removeEmptyFields]
  | cons e fields ih =>
      rw [removeEmptyFields_cons, List.mem_append, ih, Option.mem_toList,
        Option.map_eq_some_iff]
      constructor
      · rintro (⟨y, hy, he⟩ | ⟨y, hm, hy⟩)
        · obtain ⟨rfl, rfl⟩ := Prod.mk.inj he
          exact ⟨e.2, List.mem_cons_self, hy⟩
        · exact ⟨y, List.mem_cons_of_mem e hm, hy⟩
      · rintro ⟨y, hm, hy⟩
        rcases List.mem_cons.mp hm with rfl | hm
        · exact .inl ⟨x, hy, rfl⟩
        · exact .inr ⟨y, hm, hy⟩

/-- **The properties of the result**: those of the input whose values are kept. -/
theorem hasProp_recursivelyRemoveEmptyValues :
    (recursivelyRemoveEmptyValues v).HasProp k x ↔ ∃ y, v.HasProp k y ∧ kept y = some x := by
  cases v with
  | obj fields => exact mem_removeEmptyFields
  | _ => simp [HasProp, recursivelyRemoveEmptyValues, props]

/-- The properties of an object that is kept. -/
theorem hasProp_of_kept {fields : List (Str × Value ν)} (h : kept (.obj fields) = some v) :
    v.HasProp k x ↔ ∃ y, (k, y) ∈ fields ∧ kept y = some x := by
  obtain ⟨rfl, -⟩ := kept_obj_iff.mp h
  exact hasProp_recursivelyRemoveEmptyValues

/-- An object that has a property to keep is kept, with that property. -/
theorem exists_kept_obj {fields : List (Str × Value ν)} (hm : (k, v) ∈ fields)
    (h : kept v = some x) : ∃ y, kept (.obj fields) = some y ∧ y.HasProp k x := by
  have hprop : (recursivelyRemoveEmptyValues (.obj fields)).HasProp k x :=
    hasProp_recursivelyRemoveEmptyValues.mpr ⟨v, hm, h⟩
  exact ⟨_, kept_obj_iff.mpr ⟨rfl, k, x, hprop⟩, hprop⟩

/-- An object is kept if one of its properties is. -/
theorem kept_obj_isSome_iff {fields : List (Str × Value ν)} :
    (kept (.obj fields)).isSome = true ↔ ∃ e ∈ fields, (kept e.2).isSome = true := by
  constructor
  · intro h
    obtain ⟨y, hy⟩ := Option.isSome_iff_exists.mp h
    obtain ⟨-, k, x, hprop⟩ := kept_obj_iff.mp hy
    obtain ⟨v, hm, hv⟩ := (hasProp_of_kept hy).mp hprop
    exact ⟨(k, v), hm, by rw [hv]; rfl⟩
  · rintro ⟨e, hm, he⟩
    obtain ⟨x, hx⟩ := Option.isSome_iff_exists.mp he
    obtain ⟨y, hy, -⟩ := exists_kept_obj hm hx
    rw [hy]
    rfl

/-! ## 2. Paths through objects -/

/-- `v` has `x` at the end of a path that goes through objects only. -/
def At (v : Value ν) : List Str → Value ν → Prop
  | [], x => x = v
  | k :: p, x => ∃ y, v.HasProp k y ∧ At y p x

/-- A number, a boolean, a text that is not blank, or an array with something in it. -/
inductive Meaningful : Value ν → Prop
  | num (n : ν) : Meaningful (.num n)
  | bool (b : Bool) : Meaningful (.bool b)
  | str {s : Str} (h : isBlank s = false) : Meaningful (.str s)
  | arr {items : List (Value ν)} (h : items ≠ []) : Meaningful (.arr items)

/-- Null, undefined, a blank text, an empty array or an empty object. -/
inductive Empty : Value ν → Prop
  | null : Empty .null
  | undefined : Empty .undefined
  | str {s : Str} (h : isBlank s = true) : Empty (.str s)
  | arr : Empty (.arr [])
  | obj : Empty (.obj [])

/-- No object that is reached through objects has an empty value in it. -/
def Pruned (v : Value ν) : Prop :=
  ∀ p fields k x, v.At p (.obj fields) → (k, x) ∈ fields → ¬ Empty x

theorem isRemoved_iff : v.isRemoved = true ↔ Empty v := by
  constructor
  · intro h
    cases v with
    | undefined => exact .undefined
    | null => exact .null
    | bool b => cases h
    | num n => cases h
    | str s => exact .str h
    | arr items =>
        obtain rfl := List.isEmpty_iff.mp h
        exact .arr
    | obj fields =>
        obtain rfl := List.isEmpty_iff.mp h
        exact .obj
  · intro h
    cases h with
    | str h => exact h
    | _ => rfl

theorem empty_of_isEmptyContainer (h : v.isEmptyContainer = true) : Empty v := by
  cases v with
  | arr items =>
      obtain rfl := List.isEmpty_iff.mp h
      exact .arr
  | obj fields =>
      obtain rfl := List.isEmpty_iff.mp h
      exact .obj
  | _ => cases h

/-- **When a value is kept**: neither it nor what is left of it is empty. -/
theorem kept_eq_some_iff :
    kept v = some x ↔
      x = recursivelyRemoveEmptyValues v ∧ ¬ Empty v ∧ ¬ Empty (recursivelyRemoveEmptyValues v) := by
  have hrest : ¬ Empty v →
      ((recursivelyRemoveEmptyValues v).isEmptyContainer = true ↔
        Empty (recursivelyRemoveEmptyValues v)) := by
    intro hv
    refine ⟨empty_of_isEmptyContainer, fun h => ?_⟩
    cases v with
    | obj fields =>
        cases he : removeEmptyFields fields with
        | nil => simp [recursivelyRemoveEmptyValues, he, isEmptyContainer]
        | cons e l =>
            rw [recursivelyRemoveEmptyValues, he] at h
            cases h
    | _ => exact absurd h hv
  by_cases hv : Empty v
  · have hremoved : v.isRemoved = true := isRemoved_iff.mpr hv
    simp [kept, hremoved, hv]
  · have hstays : ¬ v.isRemoved = true := fun h => hv (isRemoved_iff.mp h)
    by_cases hr : Empty (recursivelyRemoveEmptyValues v)
    · have hcontainer := (hrest hv).mpr hr
      simp [kept, hcontainer, hr]
    · have hcontainer : ¬ (recursivelyRemoveEmptyValues v).isEmptyContainer = true :=
        fun h => hr ((hrest hv).mp h)
      rw [kept, if_neg (not_or.mpr ⟨hstays, hcontainer⟩), Option.some.injEq]
      exact ⟨fun h => ⟨h.symm, hv, hr⟩, fun h => h.1.symm⟩

theorem Meaningful.not_empty (h : Meaningful v) : ¬ Empty v := by
  intro he
  cases h with
  | num n => cases he
  | bool b => cases he
  | str h =>
      cases he with
      | str h' =>
          rw [h] at h'
          cases h'
  | arr h =>
      cases he
      exact h rfl

theorem Meaningful.removeEmpty_eq (h : Meaningful v) : recursivelyRemoveEmptyValues v = v := by
  cases h <;> rfl

/-- Where a path leads on, there is something. -/
theorem not_empty_of_at {p : List Str} (h : v.At p x) (hx : Meaningful x) : ¬ Empty v := by
  cases p with
  | nil =>
      obtain rfl : x = v := h
      exact hx.not_empty
  | cons k p =>
      obtain ⟨y, hy, -⟩ := h
      intro he
      cases he <;> exact absurd hy List.not_mem_nil

theorem at_append {p q : List Str} {y : Value ν} (h : v.At p y) (h' : y.At q x) :
    v.At (p ++ q) x := by
  induction p generalizing v with
  | nil =>
      obtain rfl : y = v := h
      exact h'
  | cons k p ih =>
      obtain ⟨z, hz, h⟩ := h
      exact ⟨z, hz, ih h⟩

/-- **No empty value is left.** -/
theorem pruned_removeEmpty (v : Value ν) : Pruned (recursivelyRemoveEmptyValues v) := by
  intro p fields k x h hm
  induction p generalizing v with
  | nil =>
      obtain ⟨y, -, hy⟩ := (hasProp_recursivelyRemoveEmptyValues (v := v)).mp
        (show (recursivelyRemoveEmptyValues v).HasProp k x from h ▸ hm)
      obtain ⟨rfl, -, hne⟩ := kept_eq_some_iff.mp hy
      exact hne
  | cons k' p ih =>
      obtain ⟨z, hz, h⟩ := h
      obtain ⟨y, -, hy⟩ := hasProp_recursivelyRemoveEmptyValues.mp hz
      obtain ⟨rfl, -, -⟩ := kept_eq_some_iff.mp hy
      exact ih y h

theorem removeEmptyFields_eq_self {fields : List (Str × Value ν)}
    (h : ∀ e ∈ fields, kept e.2 = some e.2) : removeEmptyFields fields = fields := by
  induction fields with
  | nil => rfl
  | cons e fields ih =>
      obtain ⟨he, hfields⟩ := List.forall_mem_cons.mp h
      rw [removeEmptyFields_cons, he, ih hfields]
      rfl

theorem sizeOf_lt_of_mem_fields {fields : List (Str × Value ν)} (h : (k, v) ∈ fields) :
    sizeOf v < 1 + sizeOf fields := by
  have := List.sizeOf_lt_of_mem h
  simp only [Prod.mk.sizeOf_spec] at this
  omega

/-- **What has no empty value in it stays as it is.** -/
theorem removeEmpty_of_pruned (v : Value ν) (h : Pruned v) : recursivelyRemoveEmptyValues v = v := by
  match v with
  | .obj fields =>
      have hkept : ∀ e ∈ fields, kept e.2 = some e.2 := by
        intro e he
        have hsub : Pruned e.2 := fun p fs k x hat => h (e.1 :: p) fs k x ⟨e.2, he, hat⟩
        have hne : ¬ Empty e.2 := h [] fields e.1 e.2 rfl he
        have hlt := sizeOf_lt_of_mem_fields he
        have ih := removeEmpty_of_pruned e.2 hsub
        exact kept_eq_some_iff.mpr ⟨ih.symm, hne, by rwa [ih]⟩
      rw [recursivelyRemoveEmptyValues, removeEmptyFields_eq_self hkept]
  | .undefined => rfl
  | .null => rfl
  | .bool _ => rfl
  | .num _ => rfl
  | .str _ => rfl
  | .arr _ => rfl
  termination_by sizeOf v

/-- **Each value that says something stands where it stood.** -/
theorem at_removeEmpty {p : List Str} (h : v.At p x) (hx : Meaningful x) :
    (recursivelyRemoveEmptyValues v).At p x := by
  induction p generalizing v with
  | nil =>
      obtain rfl : x = v := h
      exact hx.removeEmpty_eq.symm
  | cons k p ih =>
      obtain ⟨y, hy, h⟩ := h
      have hy' := ih h
      have hkept : kept y = some (recursivelyRemoveEmptyValues y) :=
        kept_eq_some_iff.mpr ⟨rfl, not_empty_of_at h hx, not_empty_of_at hy' hx⟩
      exact ⟨_, hasProp_recursivelyRemoveEmptyValues.mpr ⟨y, hy, hkept⟩, hy'⟩

/-- A value that is kept has one in it that says something. -/
theorem exists_meaningful (v : Value ν) (h : (kept v).isSome = true) :
    ∃ p x, Meaningful x ∧ v.At p x := by
  obtain ⟨y, hy⟩ := Option.isSome_iff_exists.mp h
  obtain ⟨-, hne, -⟩ := kept_eq_some_iff.mp hy
  match v with
  | .obj fields =>
      obtain ⟨e, he, hkept⟩ := kept_obj_isSome_iff.mp h
      have hlt := sizeOf_lt_of_mem_fields he
      obtain ⟨p, x, hx, hat⟩ := exists_meaningful e.2 hkept
      exact ⟨e.1 :: p, x, hx, e.2, he, hat⟩
  | .undefined => exact absurd .undefined hne
  | .null => exact absurd .null hne
  | .bool b => exact ⟨[], _, .bool b, rfl⟩
  | .num n => exact ⟨[], _, .num n, rfl⟩
  | .str s => exact ⟨[], _, .str (Bool.eq_false_iff.mpr fun hs => hne (.str hs)), rfl⟩
  | .arr items =>
      refine ⟨[], _, .arr (fun hnil => hne ?_), rfl⟩
      subst hnil
      exact .arr
  termination_by sizeOf v

/-- A path of the result, as a path of the input. -/
theorem at_of_removeEmpty {p : List Str} (h : (recursivelyRemoveEmptyValues v).At p x) :
    ∃ y, v.At p y ∧ x = recursivelyRemoveEmptyValues y ∧ (p ≠ [] → (kept y).isSome = true) := by
  induction p generalizing v with
  | nil => exact ⟨v, rfl, h, fun hp => absurd rfl hp⟩
  | cons k p ih =>
      obtain ⟨z, hz, h⟩ := h
      obtain ⟨y, hy, hkept⟩ := hasProp_recursivelyRemoveEmptyValues.mp hz
      obtain ⟨rfl, -, -⟩ := kept_eq_some_iff.mp hkept
      obtain ⟨w, hw, hx, hsome⟩ := ih h
      refine ⟨w, ⟨y, hy, hw⟩, hx, fun _ => ?_⟩
      cases p with
      | nil =>
          obtain rfl : w = y := hw
          rw [hkept]
          rfl
      | cons k' p => exact hsome (List.cons_ne_nil k' p)

/-- **Pruning is exact.** No object reached through objects has an empty value in it; each path to
    a value that says something leads to that value in the result; each path of the result is
    one of the input on the way to such a value, and where it does not end at an object, it ends
    at the value it ended at; and pruning again changes nothing. -/
theorem removeEmpty_exact (v : Value ν) :
    Pruned (recursivelyRemoveEmptyValues v) ∧
      (∀ p x, Meaningful x → v.At p x → (recursivelyRemoveEmptyValues v).At p x) ∧
      (∀ p x, (recursivelyRemoveEmptyValues v).At p x →
        (p ≠ [] → ∃ q y, Meaningful y ∧ v.At (p ++ q) y) ∧
          ((∀ fields, x ≠ .obj fields) → v.At p x ∧ (p ≠ [] → Meaningful x))) ∧
      recursivelyRemoveEmptyValues (recursivelyRemoveEmptyValues v) =
        recursivelyRemoveEmptyValues v := by
  refine ⟨pruned_removeEmpty v, fun p x hx h => at_removeEmpty h hx, fun p x h => ?_,
    removeEmpty_of_pruned _ (pruned_removeEmpty v)⟩
  obtain ⟨y, hy, rfl, hkept⟩ := at_of_removeEmpty h
  constructor
  · intro hp
    obtain ⟨q, z, hz, hat⟩ := exists_meaningful y (hkept hp)
    exact ⟨q, z, hz, at_append hy hat⟩
  · intro hobj
    have hsame : recursivelyRemoveEmptyValues y = y := by
      cases y with
      | obj fields => exact absurd rfl (hobj _)
      | _ => rfl
    rw [hsame] at hobj ⊢
    refine ⟨hy, fun hp => ?_⟩
    obtain ⟨q, z, hz, hat⟩ := exists_meaningful y (hkept hp)
    cases q with
    | nil =>
        obtain rfl : z = y := hat
        exact hz
    | cons k q =>
        -- the path leads on from `y`, which is then an object
        obtain ⟨w, hw, -⟩ := hat
        cases y with
        | obj fields => exact absurd rfl (hobj fields)
        | _ => exact absurd hw List.not_mem_nil

end Value

end DevDashboard.Web
