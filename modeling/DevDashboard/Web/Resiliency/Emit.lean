/-
  File:      DevDashboard/Web/Resiliency/Emit.lean
  Subject:   THE RESILIENCY YAML AND ITS REFERENCES (`assembleResiliency` of reducer.ts).

  The object that is written has the configuration's `spec` without its empty values. A policy
  whose fields are all empty goes with them, and a target that refers to it keeps the reference.

  * `emittedLeg_iff`, `emittedPolicy_iff` -- which legs and policies of a configuration the
    object has;
  * `noDangling_iff` -- **when an object has no dangling reference**: exactly if every reference
    that is not blank finds a policy that is written;
  * `noDangling_of_stepOk` -- a run has none in any of its states, as long as no step leaves a
    target with a circuit breaker that has nothing in it, or renames a policy in use to
    `__proto__`;
  * `blank_breaker_dangles` -- two saves after which there is one.
-/
import DevDashboard.Lib.Machine
import DevDashboard.Web.Resiliency.Dialogs

namespace DevDashboard.Web.Resiliency

open Lib
open Value (HasProp kept recursivelyRemoveEmptyValues)

variable {ν : Type}

/-! ## 1. The configuration as a value -/

/-- An optional property: absent, or undefined, where there is none. -/
def field (name : String) (v : Option (Value ν)) : List (Str × Value ν) :=
  v.toList.map fun x => (name.toList, x)

def RetryKind.toValue : RetryKind → Value ν
  | .constant => .str "constant".toList
  | .exponential => .str "exponential".toList

def CircuitBreakerScope.toValue : CircuitBreakerScope → Value ν
  | .type => .str "type".toList
  | .id => .str "id".toList
  | .both => .str "both".toList
  | .unset => .str []

def Matching.toValue (m : Matching) : Value ν :=
  .obj (field "httpStatusCodes" (m.httpStatusCodes.map .str) ++
    field "grpcStatusCodes" (m.grpcStatusCodes.map .str))

def RetryPolicy.toValue (p : RetryPolicy ν) : Value ν :=
  .obj (field "policy" (p.policy.map RetryKind.toValue) ++ field "duration" (p.duration.map .str) ++
    field "maxRetries" (p.maxRetries.map .num) ++ field "maxInterval" (p.maxInterval.map .str) ++
    field "matching" (p.matching.map Matching.toValue))

def CircuitBreakerPolicy.toValue (p : CircuitBreakerPolicy ν) : Value ν :=
  .obj (field "maxRequests" (p.maxRequests.map .num) ++ field "timeout" (p.timeout.map .str) ++
    field "trip" (p.trip.map .str) ++ field "interval" (p.interval.map .str))

/-- A policy of any kind. -/
def policyValue : (f : PolicyField) → PolicyOf ν f → Value ν
  | .timeout, (duration : Str) => .str duration
  | .retry, (p : RetryPolicy ν) => p.toValue
  | .circuitBreaker, (p : CircuitBreakerPolicy ν) => p.toValue

/-- A map of named values. -/
def mapValue {T : Type} (value : T → Value ν) (m : Obj T) : Value ν :=
  .obj (m.mapVals value).entries

def PolicyRefs.fields (leg : PolicyRefs) : List (Str × Value ν) :=
  field "timeout" (leg.timeout.map .str) ++ field "retry" (leg.retry.map .str) ++
    field "circuitBreaker" (leg.circuitBreaker.map .str)

def PolicyRefs.toValue (leg : PolicyRefs) : Value ν := .obj leg.fields

def ActorTarget.toValue (t : ActorTarget ν) : Value ν :=
  .obj (t.toPolicyRefs.fields ++
    field "circuitBreakerScope" (t.circuitBreakerScope.map CircuitBreakerScope.toValue) ++
    field "circuitBreakerCacheSize" (t.circuitBreakerCacheSize.map .num))

def ComponentTarget.toValue (t : ComponentTarget) : Value ν :=
  .obj (field "outbound" (t.outbound.map PolicyRefs.toValue) ++
    field "inbound" (t.inbound.map PolicyRefs.toValue))

/-- The name of a kind's reference in a leg. -/
def PolicyField.name : PolicyField → String
  | .timeout => "timeout"
  | .retry => "retry"
  | .circuitBreaker => "circuitBreaker"

/-- The name of a kind's map of policies. -/
def PolicyField.mapName : PolicyField → String
  | .timeout => "timeouts"
  | .retry => "retries"
  | .circuitBreaker => "circuitBreakers"

def Policies.toValue (p : Policies ν) : Value ν :=
  .obj [("timeouts".toList, mapValue (policyValue .timeout) (p.map .timeout)),
    ("retries".toList, mapValue (policyValue .retry) (p.map .retry)),
    ("circuitBreakers".toList, mapValue (policyValue .circuitBreaker) (p.map .circuitBreaker))]

def Targets.toValue (t : Targets ν) : Value ν :=
  .obj (field "apps" (t.apps.map (mapValue PolicyRefs.toValue)) ++
    field "actors" (t.actors.map (mapValue ActorTarget.toValue)) ++
    field "components" (t.components.map (mapValue ComponentTarget.toValue)))

def Spec.toValue (s : Spec ν) : Value ν :=
  .obj [("policies".toList, s.policies.toValue), ("targets".toList, s.targets.toValue)]

/-- `assembleResiliency`. -/
def assembleResiliency (config : DaprResiliency ν) : Value ν :=
  let metadata := ("name".toList, Value.str config.metadata.name) ::
    if isBlank (config.metadata.namespace.getD []) then []
    else field "namespace" (config.metadata.namespace.map .str)
  .obj [("apiVersion".toList, .str config.apiVersion), ("kind".toList, .str config.kind),
    ("metadata".toList, .obj metadata),
    ("spec".toList, recursivelyRemoveEmptyValues config.spec.toValue)]

/-! ## 2. References of the object -/

/-- The object has this target, or this leg of a component. -/
def EmittedLeg (out leg : Value ν) : Prop :=
  ∃ spec targets map, HasProp out "spec".toList spec ∧ HasProp spec "targets".toList targets ∧
    (((HasProp targets "apps".toList map ∨ HasProp targets "actors".toList map) ∧
        ∃ name, HasProp map name leg) ∨
      (HasProp targets "components".toList map ∧ ∃ name component, HasProp map name component ∧
        (HasProp component "outbound".toList leg ∨ HasProp component "inbound".toList leg)))

/-- The object has a policy of this kind and name. -/
def EmittedPolicy (out : Value ν) (f : PolicyField) (name : Str) : Prop :=
  ∃ spec policies map policy, HasProp out "spec".toList spec ∧
    HasProp spec "policies".toList policies ∧ HasProp policies f.mapName.toList map ∧
    HasProp map name policy

/-- **No dangling reference**: every reference of a target is the name of a policy. -/
def NoDangling (out : Value ν) : Prop :=
  ∀ leg, EmittedLeg out leg → ∀ (f : PolicyField) ref, HasProp leg f.name.toList ref →
    ∃ name, ref = .str name ∧ EmittedPolicy out f name

/-! ## 3. What is written -/

section Written

variable {config : DaprResiliency ν} {f : PolicyField} {k name : Str} {x v leg : Value ν}

theorem mem_field {n : String} {o : Option (Value ν)} :
    (k, x) ∈ field n o ↔ k = n.toList ∧ o = some x := by
  cases o with
  | none => simp [field]
  | some y => simp [field, eq_comm]

theorem hasProp_spec_iff :
    HasProp (assembleResiliency config) "spec".toList x ↔
      x = recursivelyRemoveEmptyValues config.spec.toValue := by
  simp [HasProp, assembleResiliency, Value.props]

theorem mem_mapValue {T : Type} {value : T → Value ν} {m : Obj T} :
    (k, x) ∈ (m.mapVals value).entries ↔ ∃ u, m.get k = some u ∧ x = value u := by
  constructor
  · intro h
    obtain ⟨e, he, heq⟩ := List.mem_map.mp h
    obtain ⟨rfl, rfl⟩ := Prod.mk.inj heq
    exact ⟨e.2, Obj.get_of_mem he, rfl⟩
  · rintro ⟨u, hu, rfl⟩
    exact List.mem_map.mpr ⟨(k, u), Obj.mem_of_get hu, rfl⟩

/-- The maps of policies in `policies`, by kind. -/
theorem mem_policies (p : Policies ν) (f : PolicyField) :
    (f.mapName.toList, x) ∈ p.toValue.props ↔ x = mapValue (policyValue f) (p.map f) := by
  cases f <;> simp [Policies.toValue, Value.props, PolicyField.mapName]

/-- **The policies that are written**: those that have something to keep. -/
theorem emittedPolicy_iff :
    EmittedPolicy (assembleResiliency config) f name ↔
      ∃ p, (config.spec.policies.map f).get name = some p ∧
        (kept (policyValue f p)).isSome = true := by
  constructor
  · rintro ⟨spec, policies, map, policy, hspec, hpolicies, hmap, hpolicy⟩
    rw [hasProp_spec_iff] at hspec
    subst hspec
    obtain ⟨y, hy, hkept⟩ := Value.hasProp_recursivelyRemoveEmptyValues.mp hpolicies
    have hy : y = config.spec.policies.toValue := by
      simpa [HasProp, Spec.toValue, Value.props] using hy
    subst hy
    obtain ⟨z, hz, hkept⟩ := (Value.hasProp_of_kept hkept).mp hmap
    obtain rfl := (mem_policies _ f).mp hz
    obtain ⟨w, hw, hkept⟩ := (Value.hasProp_of_kept hkept).mp hpolicy
    obtain ⟨p, hp, rfl⟩ := mem_mapValue.mp hw
    exact ⟨p, hp, by rw [hkept]; rfl⟩
  · rintro ⟨p, hp, hkept⟩
    obtain ⟨policy, hkept⟩ := Option.isSome_iff_exists.mp hkept
    obtain ⟨map, hmap, hpolicy⟩ := Value.exists_kept_obj (mem_mapValue.mpr ⟨p, hp, rfl⟩) hkept
    obtain ⟨policies, hpolicies, hm⟩ :=
      Value.exists_kept_obj ((mem_policies config.spec.policies f).mpr rfl) hmap
    refine ⟨_, policies, map, policy, hasProp_spec_iff.mpr rfl, ?_, hm, hpolicy⟩
    refine Value.hasProp_recursivelyRemoveEmptyValues.mpr ⟨_, ?_, hpolicies⟩
    exact List.mem_cons_self

/-- The targets and legs of a configuration, as values. -/
def Targets.legValues (t : Targets ν) : List (Value ν) :=
  (valuesOf t.apps).map PolicyRefs.toValue ++ (valuesOf t.actors).map ActorTarget.toValue ++
    ((valuesOf t.components).flatMap ComponentTarget.legs).map PolicyRefs.toValue

theorem mem_valuesOf {T : Type} {map : Option (Obj T)} {u : T} :
    u ∈ valuesOf map ↔ ∃ m n, map = some m ∧ m.get n = some u := by
  cases map with
  | none => simp [valuesOf, orEmpty, Obj.empty]
  | some m =>
      simp only [valuesOf, orEmpty, Option.getD_some, List.mem_map, Option.some.injEq]
      constructor
      · rintro ⟨e, he, rfl⟩
        exact ⟨m, e.1, rfl, Obj.get_of_mem he⟩
      · rintro ⟨m', n, rfl, hn⟩
        exact ⟨(n, u), Obj.mem_of_get hn, rfl⟩

section Targets

variable {T : Type} {value : T → Value ν} {map : Option (Obj T)} {n : String}
  {fields : List (Str × Value ν)}
  (hmem : ∀ x, (n.toList, x) ∈ fields ↔ map.map (mapValue value) = some x)
include hmem

/-- A target that is written is what is kept of one of the configuration. -/
theorem exists_of_written {targets m : Value ν} (ht : kept (.obj fields) = some targets)
    (hm : HasProp targets n.toList m) (hv : HasProp m name v) :
    ∃ u ∈ valuesOf map, kept (value u) = some v := by
  obtain ⟨y, hy, hkept⟩ := (Value.hasProp_of_kept ht).mp hm
  obtain ⟨m₀, hm₀, rfl⟩ := Option.map_eq_some_iff.mp ((hmem y).mp hy)
  obtain ⟨z, hz, hz'⟩ := (Value.hasProp_of_kept hkept).mp hv
  obtain ⟨u, hu, rfl⟩ := mem_mapValue.mp hz
  exact ⟨u, mem_valuesOf.mpr ⟨m₀, name, hm₀, hu⟩, hz'⟩

/-- A target with something to keep is written. -/
theorem exists_written {u : T} (hu : u ∈ valuesOf map) (hkept : kept (value u) = some v) :
    ∃ targets m name, kept (.obj fields) = some targets ∧ HasProp targets n.toList m ∧
      HasProp m name v := by
  obtain ⟨m₀, name, hm₀, hu⟩ := mem_valuesOf.mp hu
  obtain ⟨m, hm, hv⟩ := Value.exists_kept_obj (mem_mapValue.mpr ⟨u, hu, rfl⟩) hkept
  have hfield : (n.toList, mapValue value m₀) ∈ fields := (hmem _).mpr (by rw [hm₀]; rfl)
  obtain ⟨targets, ht, htm⟩ := Value.exists_kept_obj hfield hm
  exact ⟨targets, m, name, ht, htm, hv⟩

end Targets

theorem mem_targets_apps (t : Targets ν) (x : Value ν) :
    ("apps".toList, x) ∈ t.toValue.props ↔ t.apps.map (mapValue PolicyRefs.toValue) = some x := by
  simp [Targets.toValue, Value.props, mem_field]

theorem mem_targets_actors (t : Targets ν) (x : Value ν) :
    ("actors".toList, x) ∈ t.toValue.props ↔
      t.actors.map (mapValue ActorTarget.toValue) = some x := by
  simp [Targets.toValue, Value.props, mem_field]

theorem mem_targets_components (t : Targets ν) (x : Value ν) :
    ("components".toList, x) ∈ t.toValue.props ↔
      t.components.map (mapValue ComponentTarget.toValue) = some x := by
  simp [Targets.toValue, Value.props, mem_field]

/-- The legs of a component that is written. -/
theorem hasProp_component {t : ComponentTarget} (h : kept t.toValue = some v) :
    (HasProp v "outbound".toList leg ∨ HasProp v "inbound".toList leg) ↔
      ∃ r ∈ t.legs, kept r.toValue = some leg := by
  rw [ComponentTarget.toValue] at h
  simp only [Value.hasProp_of_kept h, List.mem_append, mem_field, ComponentTarget.legs,
    Option.mem_toList, Option.map_eq_some_iff]
  constructor
  · rintro (⟨y, hy, hk⟩ | ⟨y, hy, hk⟩)
    · rcases hy with ⟨-, r, hr, rfl⟩ | ⟨hne, -⟩
      · exact ⟨r, .inl hr, hk⟩
      · exact absurd hne (by decide)
    · rcases hy with ⟨hne, -⟩ | ⟨-, r, hr, rfl⟩
      · exact absurd hne (by decide)
      · exact ⟨r, .inr hr, hk⟩
  · rintro ⟨r, hr | hr, hk⟩
    · exact .inl ⟨_, .inl ⟨trivial, r, hr, rfl⟩, hk⟩
    · exact .inr ⟨_, .inr ⟨trivial, r, hr, rfl⟩, hk⟩

theorem exists_mem_component {t : ComponentTarget} {r : PolicyRefs} (hr : r ∈ t.legs) :
    ∃ n, (n, (r.toValue : Value ν)) ∈ t.toValue.props := by
  rcases List.mem_append.mp hr with hr | hr
  · refine ⟨"outbound".toList, List.mem_append_left _ (mem_field.mpr ⟨rfl, ?_⟩)⟩
    exact Option.map_eq_some_iff.mpr ⟨r, Option.mem_toList.mp hr, rfl⟩
  · refine ⟨"inbound".toList, List.mem_append_right _ (mem_field.mpr ⟨rfl, ?_⟩)⟩
    exact Option.map_eq_some_iff.mpr ⟨r, Option.mem_toList.mp hr, rfl⟩

/-- A component with a leg to keep is kept. -/
theorem exists_kept_component {t : ComponentTarget} {r : PolicyRefs} (hr : r ∈ t.legs)
    (h : kept r.toValue = some leg) : ∃ v : Value ν, kept t.toValue = some v := by
  obtain ⟨n, hn⟩ := exists_mem_component hr
  obtain ⟨v, hv, -⟩ := Value.exists_kept_obj hn h
  exact ⟨v, hv⟩

/-- **The legs that are written**: those that have something to keep. -/
theorem emittedLeg_iff :
    EmittedLeg (assembleResiliency config) leg ↔
      ∃ v ∈ config.spec.targets.legValues, kept v = some leg := by
  have hlegs : ∀ v, v ∈ config.spec.targets.legValues ↔
      (∃ r ∈ valuesOf config.spec.targets.apps, v = r.toValue) ∨
      (∃ t ∈ valuesOf config.spec.targets.actors, v = t.toValue) ∨
      ∃ t ∈ valuesOf config.spec.targets.components, ∃ r ∈ t.legs, v = r.toValue := by
    intro v
    simp only [Targets.legValues, List.mem_append, List.mem_map, List.mem_flatMap, or_assoc,
      eq_comm (b := v)]
    refine or_congr_right (or_congr_right ?_)
    exact ⟨fun ⟨r, ⟨t, ht, hr⟩, h⟩ => ⟨t, ht, r, hr, h⟩, fun ⟨t, ht, r, hr, h⟩ =>
      ⟨r, ⟨t, ht, hr⟩, h⟩⟩
  constructor
  · rintro ⟨spec, targets, map, hspec, htargets, hmap⟩
    rw [hasProp_spec_iff] at hspec
    subst hspec
    obtain ⟨y, hy, ht⟩ := Value.hasProp_recursivelyRemoveEmptyValues.mp htargets
    have hy : y = config.spec.targets.toValue := by
      simpa [HasProp, Spec.toValue, Value.props] using hy
    subst hy
    rcases hmap with ⟨hm | hm, name, hv⟩ | ⟨hm, name, component, hc, hv⟩
    · obtain ⟨u, hu, hk⟩ := exists_of_written (mem_targets_apps _) ht hm hv
      exact ⟨_, (hlegs _).mpr (.inl ⟨u, hu, rfl⟩), hk⟩
    · obtain ⟨u, hu, hk⟩ := exists_of_written (mem_targets_actors _) ht hm hv
      exact ⟨_, (hlegs _).mpr (.inr (.inl ⟨u, hu, rfl⟩)), hk⟩
    · obtain ⟨t, htc, hk⟩ := exists_of_written (mem_targets_components _) ht hm hc
      obtain ⟨r, hr, hk⟩ := (hasProp_component hk).mp hv
      exact ⟨_, (hlegs _).mpr (.inr (.inr ⟨t, htc, r, hr, rfl⟩)), hk⟩
  · rintro ⟨v, hv, hk⟩
    have hspec : ∀ targets, kept config.spec.targets.toValue = some targets →
        HasProp (recursivelyRemoveEmptyValues config.spec.toValue) "targets".toList targets :=
      fun targets ht => Value.hasProp_recursivelyRemoveEmptyValues.mpr
        ⟨_, List.mem_cons_of_mem _ List.mem_cons_self, ht⟩
    rcases (hlegs v).mp hv with ⟨u, hu, rfl⟩ | ⟨u, hu, rfl⟩ | ⟨t, htc, r, hr, rfl⟩
    · obtain ⟨targets, map, name, ht, hm, hl⟩ := exists_written (mem_targets_apps _) hu hk
      exact ⟨_, targets, map, hasProp_spec_iff.mpr rfl, hspec _ ht, .inl ⟨.inl hm, name, hl⟩⟩
    · obtain ⟨targets, map, name, ht, hm, hl⟩ := exists_written (mem_targets_actors _) hu hk
      exact ⟨_, targets, map, hasProp_spec_iff.mpr rfl, hspec _ ht, .inl ⟨.inr hm, name, hl⟩⟩
    · obtain ⟨c, hc⟩ := exists_kept_component hr hk
      obtain ⟨targets, map, name, ht, hm, hl⟩ := exists_written (mem_targets_components _) htc hc
      exact ⟨_, targets, map, hasProp_spec_iff.mpr rfl, hspec _ ht,
        .inr ⟨hm, name, c, hl, (hasProp_component hc).mpr ⟨r, hr, hk⟩⟩⟩

/-! ## 4. Dangling references -/

/-- A value that has exactly the references of a leg under their names. -/
def LegOf (r : PolicyRefs) (v : Value ν) : Prop :=
  (∃ fields, v = .obj fields) ∧
    ∀ (f : PolicyField) x, HasProp v f.name.toList x ↔ ∃ n, r.get f = some n ∧ x = .str n

theorem mem_fields (r : PolicyRefs) (f : PolicyField) (x : Value ν) :
    (f.name.toList, x) ∈ r.fields ↔ ∃ n, r.get f = some n ∧ x = .str n := by
  cases f <;>
    simp [PolicyRefs.fields, PolicyField.name, PolicyRefs.get, mem_field, eq_comm (a := x)]

theorem legOf_toValue (r : PolicyRefs) : LegOf r (r.toValue : Value ν) :=
  ⟨⟨_, rfl⟩, mem_fields r⟩

theorem legOf_actor (t : ActorTarget ν) : LegOf t.toPolicyRefs t.toValue := by
  refine ⟨⟨_, rfl⟩, fun f x => ?_⟩
  rw [← mem_fields]
  simp only [HasProp, ActorTarget.toValue, Value.props, List.mem_append, mem_field]
  cases f <;> simp [PolicyField.name]

/-- The legs of a configuration and their values. -/
theorem legOf_legValues (t : Targets ν) :
    (∀ r ∈ t.refs, ∃ v ∈ t.legValues, LegOf r v) ∧ ∀ v ∈ t.legValues, ∃ r ∈ t.refs, LegOf r v := by
  simp only [Targets.refs, Targets.legValues, List.mem_append, List.mem_map]
  constructor
  · rintro r ((hr | ⟨u, hu, rfl⟩) | hr)
    · exact ⟨_, .inl (.inl ⟨r, hr, rfl⟩), legOf_toValue r⟩
    · exact ⟨_, .inl (.inr ⟨u, hu, rfl⟩), legOf_actor u⟩
    · exact ⟨_, .inr ⟨r, hr, rfl⟩, legOf_toValue r⟩
  · rintro v ((⟨r, hr, rfl⟩ | ⟨u, hu, rfl⟩) | ⟨r, hr, rfl⟩)
    · exact ⟨r, .inl (.inl hr), legOf_toValue r⟩
    · exact ⟨_, .inl (.inr ⟨u, hu, rfl⟩), legOf_actor u⟩
    · exact ⟨r, .inr hr, legOf_toValue r⟩

/-- A policy that is written if it is there. -/
def Written (f : PolicyField) (p : PolicyOf ν f) : Prop := (kept (policyValue f p)).isSome = true

/-- **When nothing dangles**: every reference that is not blank finds a policy that is written. -/
theorem noDangling_iff :
    NoDangling (assembleResiliency config) ↔
      ∀ r ∈ config.spec.targets.refs, ∀ f name, r.get f = some name → isBlank name = false →
        ∃ p, (config.spec.policies.map f).get name = some p ∧ Written f p := by
  obtain ⟨hval, hleg⟩ := legOf_legValues config.spec.targets
  constructor
  · intro h r hr f name hname hblank
    obtain ⟨v, hv, ⟨fields, rfl⟩, hprops⟩ := hval r hr
    have href : HasProp (.obj fields) f.name.toList (.str name) :=
      (hprops f _).mpr ⟨name, hname, rfl⟩
    obtain ⟨leg, hkept, hl⟩ :=
      Value.exists_kept_obj href (Value.kept_str_iff.mpr ⟨hblank, rfl⟩)
    obtain ⟨n, hn, hp⟩ := h leg (emittedLeg_iff.mpr ⟨_, hv, hkept⟩) f _ hl
    obtain rfl : name = n := by simpa using hn
    exact emittedPolicy_iff.mp hp
  · intro h leg hl f ref href
    obtain ⟨v, hv, hkept⟩ := emittedLeg_iff.mp hl
    obtain ⟨r, hr, ⟨fields, rfl⟩, hprops⟩ := hleg v hv
    obtain ⟨y, hy, hky⟩ := (Value.hasProp_of_kept hkept).mp href
    obtain ⟨n, hn, rfl⟩ := (hprops f y).mp hy
    obtain ⟨hblank, rfl⟩ := Value.kept_str_iff.mp hky
    exact ⟨n, rfl, emittedPolicy_iff.mpr (h r hr f n hn hblank)⟩

end Written

/-! ## 5. Policies with nothing in them -/

/-- A circuit breaker without a number of requests whose texts are all blank. -/
def CircuitBreakerPolicy.isEmpty (p : CircuitBreakerPolicy ν) : Bool :=
  p.maxRequests.isNone && p.timeout.all isBlank && p.trip.all isBlank && p.interval.all isBlank

theorem exists_mem_field {n : String} {o : Option (Value ν)} {P : Value ν → Prop} :
    (∃ e ∈ field n o, P e.2) ↔ ∃ x ∈ o, P x := by
  cases o <;> simp [field]

theorem exists_mem_append {l₁ l₂ : List (Str × Value ν)} {P : Value ν → Prop} :
    (∃ e ∈ l₁ ++ l₂, P e.2) ↔ (∃ e ∈ l₁, P e.2) ∨ ∃ e ∈ l₂, P e.2 := by
  simp only [List.mem_append, or_and_right, exists_or]

theorem exists_kept_str {o : Option Str} :
    (∃ x ∈ o.map (@Value.str ν), (kept x).isSome = true) ↔ o.all isBlank = false := by
  cases o with
  | none => simp
  | some s =>
      simp only [Option.map_some, Option.mem_some_iff, exists_eq_left', Option.all_some,
        Option.isSome_iff_exists, Value.kept_str_iff, exists_and_left, exists_eq, and_true]

/-- **A circuit breaker is written** unless there is nothing in it. -/
theorem written_circuitBreaker_iff (p : CircuitBreakerPolicy ν) :
    Written .circuitBreaker p ↔ p.isEmpty = false := by
  have hnum : (∃ x ∈ p.maxRequests.map (@Value.num ν), (kept x).isSome = true) ↔
      p.maxRequests.isNone = false := by
    cases p.maxRequests with
    | none => simp
    | some n => simp [Value.kept_num]
  simp only [Written, policyValue, CircuitBreakerPolicy.toValue, Value.kept_obj_isSome_iff,
    exists_mem_append (P := fun v => (kept v).isSome = true),
    exists_mem_field (P := fun v => (kept v).isSome = true), exists_kept_str, hnum,
    CircuitBreakerPolicy.isEmpty, Bool.and_eq_false_iff]

/-- A retry policy that has its kind is written. -/
theorem written_retry {p : RetryPolicy ν} (h : p.policy.isSome = true) : Written .retry p := by
  obtain ⟨kind, hk⟩ := Option.isSome_iff_exists.mp h
  refine Value.kept_obj_isSome_iff.mpr ⟨("policy".toList, kind.toValue), ?_, ?_⟩
  · simp only [List.append_assoc]
    exact List.mem_append_left _ (mem_field.mpr ⟨rfl, by rw [hk]; rfl⟩)
  · cases kind <;> rfl

theorem written_timeout {duration : Str} (h : isBlank duration = false) :
    @Written ν .timeout duration :=
  Option.isSome_iff_exists.mpr ⟨_, Value.kept_str_iff.mpr ⟨h, rfl⟩⟩

/-! ## 6. Runs -/

/-- The references of a leg find policies, which are written unless the reference is blank. -/
def LegAlive (p : Policies ν) (leg : PolicyRefs) : Prop :=
  ∀ f name, leg.get f = some name →
    ∃ q, (p.map f).get name = some q ∧ (isBlank name = false → Written f q)

/-- What every state of a run has. -/
structure Alive (p : Policies ν) (refs : List PolicyRefs) : Prop where
  proto : ∀ f, Obj.protoName ∉ (p.map f).keys
  legs : ∀ leg ∈ refs, LegAlive p leg
  written : ∀ f ≠ .circuitBreaker, ∀ name q, (p.map f).get name = some q → Written f q

namespace Alive

variable {p : Policies ν} {refs refs' : List PolicyRefs} {f : PolicyField} {name : Str}

theorem of_legs (h : Alive p refs) (h' : ∀ leg ∈ refs', leg ∈ refs ∨ LegAlive p leg) :
    Alive p refs' :=
  ⟨h.proto, fun leg hl => (h' leg hl).elim (h.legs leg) id, h.written⟩

/-- Policies of one kind changed so that each leg finds its own. -/
theorem setMap {m : Obj (PolicyOf ν f)} (h : Alive p refs) (hproto : Obj.protoName ∉ m.keys)
    (hlegs : ∀ leg' ∈ refs', (∃ leg ∈ refs, ∀ g ≠ f, leg'.get g = leg.get g) ∧
      ∀ n, leg'.get f = some n → ∃ q, m.get n = some q ∧ (isBlank n = false → Written f q))
    (hwritten : f ≠ .circuitBreaker → ∀ n q, m.get n = some q → Written f q) :
    Alive (p.setMap f m) refs' := by
  refine ⟨fun g => ?_, fun leg' hl g n hn => ?_, fun g hg n q hq => ?_⟩
  · by_cases hgf : g = f
    · subst hgf
      rwa [Policies.map_setMap]
    · rw [Policies.map_setMap_of_ne _ _ hgf]
      exact h.proto g
  · obtain ⟨⟨leg, hleg, hsame⟩, hnew⟩ := hlegs leg' hl
    by_cases hgf : g = f
    · subst hgf
      rw [Policies.map_setMap]
      exact hnew n hn
    · rw [Policies.map_setMap_of_ne _ _ hgf]
      exact h.legs leg hleg g n (hsame g hgf ▸ hn)
  · by_cases hgf : g = f
    · subst hgf
      rw [Policies.map_setMap] at hq
      exact hwritten hg n q hq
    · rw [Policies.map_setMap_of_ne _ _ hgf] at hq
      exact h.written g hg n q hq

/-- A policy is saved under a name: a new one, or in place of another. -/
theorem upsert {q : PolicyOf ν f} (h : Alive p refs) (hname : name ≠ Obj.protoName)
    (hq : f ≠ .circuitBreaker → Written f q)
    (hrefs : Written f q ∨ ∀ leg ∈ refs, leg.get f ≠ some name) :
    Alive (p.setMap f ((p.map f).define name q)) refs := by
  refine h.setMap ?_ (fun leg hl => ⟨⟨leg, hl, fun _ _ => rfl⟩, fun n hn => ?_⟩) fun hf n r hr => ?_
  · rw [Obj.mem_keys_define, not_or]
    exact ⟨Ne.symm hname, h.proto f⟩
  · rw [Obj.get_define]
    split
    · next hnn =>
        subst hnn
        exact ⟨q, rfl, fun _ => hrefs.resolve_right fun hno => hno leg hl hn⟩
    · exact h.legs leg hl f n hn
  · rw [Obj.get_define] at hr
    split at hr
    · exact Option.some.inj hr ▸ hq hf
    · exact h.written f hf n r hr

/-- A policy is removed and the references to it are cleared. -/
theorem remove (h : Alive p refs)
    (hrefs : ∀ leg' ∈ refs', ∃ leg ∈ refs, leg' = remapped f name none leg) :
    Alive (p.setMap f (withoutKey (p.map f) name)) refs' := by
  refine h.setMap ?_ (fun leg' hl => ?_) fun hf n q hq => ?_
  · exact fun hk => h.proto f (Obj.mem_keys_erase.mp hk).2
  · obtain ⟨leg, hleg, rfl⟩ := hrefs leg' hl
    have hclear := clearsRefs_remapped f name leg
    refine ⟨⟨leg, hleg, fun g hg => ?_⟩, fun n hn => ?_⟩
    · rw [hclear g, if_neg fun hc => hg hc.1]
    · rw [hclear f] at hn
      split at hn
      · exact absurd hn (by simp)
      · next hc =>
          have hne : n ≠ name := fun hnn => hc ⟨rfl, hnn ▸ hn⟩
          rw [withoutKey, Obj.get_erase, if_neg hne]
          exact h.legs leg hleg f n hn
  · rw [withoutKey, Obj.get_erase] at hq
    split at hq
    · exact absurd hq (by simp)
    · exact h.written f hf n q hq

/-- A policy is renamed to an unused name, and the references to it are. -/
theorem rename {from' to' : Str} (h : Alive p refs) (hunused : to' ∉ (p.map f).keys)
    (hok : (∃ leg ∈ refs, leg.get f = some from') → to' ≠ Obj.protoName ∧
      (isBlank to' = false → ∀ q, (p.map f).get from' = some q → Written f q))
    (hrefs : ∀ leg' ∈ refs', ∃ leg ∈ refs, leg' = remapped f from' (some to') leg) :
    Alive (p.setMap f (renamedKey (p.map f) from' to')) refs' := by
  refine h.setMap (proto_not_mem_renamedKey (h.proto f)) (fun leg' hl => ?_) fun hf n q hq => ?_
  · obtain ⟨leg, hleg, rfl⟩ := hrefs leg' hl
    rw [refs_remapped]
    by_cases href : leg.get f = some from'
    · rw [if_pos href]
      refine ⟨⟨leg, hleg, fun g hg => by simp [hg]⟩, fun n hn => ?_⟩
      obtain rfl : to' = n := by simpa using hn
      obtain ⟨hproto, hwritten⟩ := hok ⟨leg, hleg, href⟩
      obtain ⟨q, hq, -⟩ := h.legs leg hleg f from' href
      have hfresh : FreshName (p.map f) from' to' := ⟨Obj.mem_keys_of_get hq, hunused, hproto⟩
      refine ⟨q, ?_, fun hblank => hwritten hblank q hq⟩
      rw [get_renamedKey (h.proto f) hfresh, if_pos rfl, hq]
    · rw [if_neg href]
      refine ⟨⟨leg, hleg, fun _ _ => rfl⟩, fun n hn => ?_⟩
      obtain ⟨q, hq, hw⟩ := h.legs leg hleg f n hn
      have hnf : n ≠ from' := fun hnn => href (hnn ▸ hn)
      have hnt : n ≠ to' := fun hnn => hunused (hnn ▸ Obj.mem_keys_of_get hq)
      exact ⟨q, by rw [get_renamedKey_of_ne (h.proto f) hunused hnf hnt, hq], hw⟩
  · obtain ⟨k, hk⟩ := exists_get_of_renamedKey hq
    exact h.written f hf k q hk

end Alive

/-- Every reference of a leg names an existing policy. -/
def RefsIn (p : Policies ν) (leg : PolicyRefs) : Prop :=
  ∀ f name, leg.get f = some name → name ∈ (p.map f).keys

/-- What the dialogs and the pages let happen: a policy is saved from a form that can be saved, a
    rename goes to an unused name, and a target refers to policies that exist. -/
def Admissible (Number : Str → ν) (s : ResiliencyState ν) : Action ν → Prop
  | .upsertTimeout name duration =>
      ∃ props, ∃ form : TimeoutForm, form.canSave props = true ∧ name = form.name ∧
        duration = form.duration
  | .upsertRetry name policy =>
      ∃ props, ∃ form : RetryForm, form.canSave props = true ∧ name = form.name ∧
        policy = form.save Number props
  | .upsertCb name policy =>
      ∃ props, ∃ form : CircuitBreakerForm, form.canSave props = true ∧ name = form.name ∧
        policy = form.save Number
  | .renameTimeout _ to' => to' ∉ (s.config.spec.policies.map .timeout).keys
  | .renameRetry _ to' => to' ∉ (s.config.spec.policies.map .retry).keys
  | .renameCb _ to' => to' ∉ (s.config.spec.policies.map .circuitBreaker).keys
  | .upsertApp _ target => RefsIn s.config.spec.policies target
  | .upsertActor _ target => RefsIn s.config.spec.policies target.toPolicyRefs
  | .upsertComponent _ target => ∀ leg ∈ target.legs, RefsIn s.config.spec.policies leg
  | _ => True

/-- A leg does not refer to a circuit breaker with nothing in it, unless its reference is blank and
    goes as well. -/
def Filled (p : Policies ν) (leg : PolicyRefs) : Prop :=
  ∀ name q, leg.circuitBreaker = some name → isBlank name = false →
    p.circuitBreakers.get name = some q → q.isEmpty = false

/-- Some leg refers to a name. -/
def InUse (s : ResiliencyState ν) (f : PolicyField) (name : Str) : Prop :=
  ∃ leg ∈ s.config.spec.targets.refs, leg.get f = some name

/-- The step leaves no target with a circuit breaker that has nothing in it, and does not rename a
    policy in use to `__proto__`. -/
def StepOk (s : ResiliencyState ν) : Action ν → Prop
  | .upsertCb name policy => InUse s .circuitBreaker name → policy.isEmpty = false
  | .renameTimeout from' to' => InUse s .timeout from' → to' ≠ Obj.protoName
  | .renameRetry from' to' => InUse s .retry from' → to' ≠ Obj.protoName
  | .renameCb from' to' =>
      InUse s .circuitBreaker from' → to' ≠ Obj.protoName ∧
        (isBlank to' = false → ∀ q, s.config.spec.policies.circuitBreakers.get from' = some q →
          q.isEmpty = false)
  | .upsertApp _ target => Filled s.config.spec.policies target
  | .upsertActor _ target => Filled s.config.spec.policies target.toPolicyRefs
  | .upsertComponent _ target => ∀ leg ∈ target.legs, Filled s.config.spec.policies leg
  | _ => True

/-- The invariant of a run. -/
def AliveState (s : ResiliencyState ν) : Prop :=
  Alive s.config.spec.policies s.config.spec.targets.refs

theorem AliveState.noDangling {s : ResiliencyState ν} (h : AliveState s) :
    NoDangling (assembleResiliency s.config) := by
  refine noDangling_iff.mpr fun leg hl f name hn hblank => ?_
  obtain ⟨q, hq, hw⟩ := h.legs leg hl f name hn
  exact ⟨q, hq, hw hblank⟩

theorem legAlive {p : Policies ν} {refs : List PolicyRefs} {leg : PolicyRefs} (h : Alive p refs)
    (hin : RefsIn p leg) (hfilled : Filled p leg) : LegAlive p leg := by
  intro f name hn
  obtain ⟨q, hq⟩ := Option.isSome_iff_exists.mp (Obj.get_isSome_iff.mpr (hin f name hn))
  refine ⟨q, hq, fun hblank => ?_⟩
  by_cases hf : f = .circuitBreaker
  · subst hf
    exact (written_circuitBreaker_iff q).mpr (hfilled name q hn hblank hq)
  · exact h.written f hf name q hq

section Steps

variable {T : Type} {map : Option (Obj T)} {name : Str} {u v : T}

theorem mem_valuesOf_define (h : u ∈ valuesOf (some ((orEmpty map).define name v))) :
    u = v ∨ u ∈ valuesOf map := by
  obtain ⟨e, he, rfl⟩ := List.mem_map.mp h
  rcases mem_put he with rfl | he
  · exact .inl rfl
  · exact .inr (List.mem_map_of_mem he)

theorem mem_valuesOf_withoutKey (h : u ∈ valuesOf (some (withoutKey (orEmpty map) name))) :
    u ∈ valuesOf map := by
  obtain ⟨e, he, rfl⟩ := List.mem_map.mp h
  exact List.mem_map_of_mem (List.mem_of_mem_filter he)

/-- The legs of targets of which one kind has other values than before: the legs of those. -/
theorem of_mem_refs {t t' : Targets ν} {P : PolicyRefs → Prop} {leg : PolicyRefs}
    (h : leg ∈ t'.refs)
    (happs : ∀ u ∈ valuesOf t'.apps, u ∈ valuesOf t.apps ∨ P u)
    (hactors : ∀ u ∈ valuesOf t'.actors, u ∈ valuesOf t.actors ∨ P u.toPolicyRefs)
    (hcomponents : ∀ u ∈ valuesOf t'.components, u ∈ valuesOf t.components ∨ ∀ l ∈ u.legs, P l) :
    leg ∈ t.refs ∨ P leg := by
  rcases List.mem_append.mp h with h | h
  · rcases List.mem_append.mp h with h | h
    · exact (happs leg h).imp_left fun h =>
        List.mem_append_left _ (List.mem_append_left _ h)
    · obtain ⟨u, hu, rfl⟩ := List.mem_map.mp h
      exact (hactors u hu).imp_left fun h =>
        List.mem_append_left _ (List.mem_append_right _ (List.mem_map_of_mem h))
  · obtain ⟨u, hu, hl⟩ := List.mem_flatMap.mp h
    rcases hcomponents u hu with hu | hu
    · exact .inl (List.mem_append_right _ (List.mem_flatMap.mpr ⟨u, hu, hl⟩))
    · exact .inr (hu leg hl)

variable {s : ResiliencyState ν} {f : PolicyField}

theorem aliveState_setTargets {t' : Targets ν} (h : AliveState s)
    (hlegs : ∀ leg ∈ t'.refs, leg ∈ s.config.spec.targets.refs ∨
      LegAlive s.config.spec.policies leg) :
    AliveState (s.setSpec s.config.spec.policies t') :=
  Alive.of_legs h hlegs

theorem aliveState_upsert {q : PolicyOf ν f} (h : AliveState s) (hname : name ≠ Obj.protoName)
    (hq : f ≠ .circuitBreaker → Written f q) (huse : InUse s f name → Written f q) :
    AliveState (s.setSpec
      (s.config.spec.policies.setMap f ((s.config.spec.policies.map f).define name q))
      s.config.spec.targets) := by
  refine Alive.upsert h hname hq ?_
  by_cases hu : InUse s f name
  · exact .inl (huse hu)
  · exact .inr fun leg hl hn => hu ⟨leg, hl, hn⟩

theorem toPolicyRefs_remapped {from' : Str} {to' : Option Str} (t : ActorTarget ν) :
    (remapped f from' to' t).toPolicyRefs = remapped f from' to' t.toPolicyRefs := by
  rw [remapped_actor]

theorem aliveState_remove (h : AliveState s) : AliveState (reducer s (removeAction f name)) := by
  rw [reducer_removeAction]
  exact Alive.remove h fun _ hl => exists_of_mem_refs_remap toPolicyRefs_remapped hl

theorem aliveState_rename {from' to' : Str} (h : AliveState s)
    (hunused : to' ∉ (s.config.spec.policies.map f).keys)
    (hok : InUse s f from' → to' ≠ Obj.protoName ∧ (isBlank to' = false →
      ∀ q, (s.config.spec.policies.map f).get from' = some q → Written f q)) :
    AliveState (reducer s (renameAction f from' to')) := by
  rw [reducer_renameAction]
  exact Alive.rename h hunused hok fun _ hl => exists_of_mem_refs_remap toPolicyRefs_remapped hl

/-- A rename of a kind whose policies are all written. -/
theorem aliveState_rename_of_ne {from' to' : Str} (h : AliveState s) (hf : f ≠ .circuitBreaker)
    (hunused : to' ∉ (s.config.spec.policies.map f).keys)
    (hok : InUse s f from' → to' ≠ Obj.protoName) :
    AliveState (reducer s (renameAction f from' to')) :=
  aliveState_rename h hunused fun hu => ⟨hok hu, fun _ q hq => h.written f hf from' q hq⟩

/-- **One step** keeps the invariant, unless it leaves a target with an empty circuit breaker. -/
theorem aliveState_reducer {Number : Str → ν} {a : Action ν} (h : AliveState s)
    (ha : Admissible Number s a) (hok : StepOk s a) : AliveState (reducer s a) := by
  have hself : ∀ {T : Type} {m : Option (Obj T)} {P : T → Prop},
      ∀ u ∈ valuesOf m, u ∈ valuesOf m ∨ P u := fun _ hu => .inl hu
  have herase : ∀ {T : Type} {m : Option (Obj T)} {n : Str} {P : T → Prop},
      ∀ u ∈ valuesOf (some (withoutKey (orEmpty m) n)), u ∈ valuesOf m ∨ P u :=
    fun _ hu => .inl (mem_valuesOf_withoutKey hu)
  cases a with
  | setName n => exact h
  | setNamespace n => exact h
  | next => exact h
  | back => exact h
  | upsertTimeout n duration =>
      obtain ⟨props, form, hsave, rfl, rfl⟩ := ha
      have hw : @Written ν .timeout form.duration :=
        written_timeout (TimeoutForm.not_blank hsave)
      exact aliveState_upsert (f := .timeout) h (TimeoutForm.name_ne_proto hsave) (fun _ => hw)
        fun _ => hw
  | upsertRetry n policy =>
      obtain ⟨props, form, hsave, rfl, rfl⟩ := ha
      have hw : Written .retry (form.save Number props) := written_retry rfl
      exact aliveState_upsert (f := .retry) h (RetryForm.name_ne_proto hsave) (fun _ => hw)
        fun _ => hw
  | upsertCb n policy =>
      obtain ⟨props, form, hsave, rfl, rfl⟩ := ha
      exact aliveState_upsert (f := .circuitBreaker) h (CircuitBreakerForm.name_ne_proto hsave)
        (fun hne => absurd rfl hne) fun hu => (written_circuitBreaker_iff _).mpr (hok hu)
  | removeTimeout n => exact aliveState_remove (f := .timeout) h
  | removeRetry n => exact aliveState_remove (f := .retry) h
  | removeCb n => exact aliveState_remove (f := .circuitBreaker) h
  | renameTimeout from' to' => exact aliveState_rename_of_ne (f := .timeout) h nofun ha hok
  | renameRetry from' to' => exact aliveState_rename_of_ne (f := .retry) h nofun ha hok
  | renameCb from' to' =>
      refine aliveState_rename (f := .circuitBreaker) h ha fun hu => ⟨(hok hu).1, fun hb q hq => ?_⟩
      exact (written_circuitBreaker_iff q).mpr ((hok hu).2 hb q hq)
  | upsertApp n target =>
      refine aliveState_setTargets h fun leg hl => of_mem_refs hl (fun u hu => ?_) hself hself
      rcases mem_valuesOf_define hu with rfl | hu
      · exact .inr (legAlive h ha hok)
      · exact .inl hu
  | upsertActor n target =>
      refine aliveState_setTargets h fun leg hl => of_mem_refs hl hself (fun u hu => ?_) hself
      rcases mem_valuesOf_define hu with rfl | hu
      · exact .inr (legAlive h ha hok)
      · exact .inl hu
  | upsertComponent n target =>
      refine aliveState_setTargets h fun leg hl => of_mem_refs hl hself hself fun u hu => ?_
      rcases mem_valuesOf_define hu with rfl | hu
      · exact .inr fun l hl => legAlive h (ha l hl) (hok l hl)
      · exact .inl hu
  | removeApp n =>
      exact aliveState_setTargets h fun leg hl => of_mem_refs hl herase hself hself
  | removeActor n =>
      exact aliveState_setTargets h fun leg hl => of_mem_refs hl hself herase hself
  | removeComponent n =>
      exact aliveState_setTargets h fun leg hl => of_mem_refs hl hself hself herase

end Steps

theorem aliveState_initial : AliveState (initialState : ResiliencyState ν) := by
  refine ⟨fun f => ?_, nofun, fun f _ name q hq => ?_⟩
  · cases f <;> exact List.not_mem_nil
  · cases f <;> cases hq

/-- A circuit breaker is saved, and then an app that refers to it. -/
def saveAndUse (form : CircuitBreakerForm) : List (Action Nat) :=
  [.upsertCb form.name (form.save (Nat.ofDigitChars 10 · 0)),
    .upsertApp "w".toList ⟨none, none, some form.name⟩]

theorem admissible_saveAndUse {props : DialogProps} {form : CircuitBreakerForm}
    (h : form.canSave props = true) :
    ∀ p ∈ visited reducer initialState (saveAndUse form),
      Admissible (Nat.ofDigitChars 10 · 0) p.1 p.2 := by
  refine List.forall_mem_cons.mpr ⟨⟨props, form, h, rfl, rfl⟩, List.forall_mem_singleton.mpr ?_⟩
  intro f name hn
  cases f with
  | timeout => cases hn
  | retry => cases hn
  | circuitBreaker =>
      obtain rfl := Option.some.inj hn
      exact List.mem_singleton_self _

/-- A new circuit breaker. -/
def newBreaker : DialogProps := ⟨false, "cb".toList, some []⟩

/-- The dialog with its first contents. -/
def filledForm : CircuitBreakerForm :=
  ⟨"cb".toList, "1".toList, "45s".toList, "consecutiveFailures >= 5".toList, "8s".toList⟩

/-- The dialog with all fields but the name emptied. -/
def blankForm : CircuitBreakerForm := ⟨"cb".toList, [], [], [], []⟩

/-- **A run without dangling references**: whatever is dispatched from the initial state, the
    object that is written has none, as long as every step is admissible and leaves no target with
    a circuit breaker that has nothing in it. -/
theorem noDangling_of_stepOk (Number : Str → ν) (actions : List (Action ν))
    (hadm : ∀ p ∈ visited reducer initialState actions, Admissible Number p.1 p.2)
    (hok : ∀ p ∈ visited reducer initialState actions, StepOk p.1 p.2) :
    NoDangling (assembleResiliency (actions.foldl reducer initialState).config) := by
  refine AliveState.noDangling ?_
  refine Trace.inv_of (C := fun s a => Admissible Number s a ∧ StepOk s a) aliveState_initial ?_
    (Trace.of_visited reducer initialState actions) fun p hp => ⟨hadm p hp, hok p hp⟩
  rintro s a s' h ⟨ha, hok⟩ rfl
  exact aliveState_reducer h ha hok

theorem noDangling_saveAndUse :
    NoDangling
      (assembleResiliency ((saveAndUse filledForm).foldl reducer initialState).config) := by
  refine noDangling_of_stepOk (Nat.ofDigitChars 10 · 0) (saveAndUse filledForm)
    (@admissible_saveAndUse newBreaker filledForm (by decide)) ?_
  refine List.forall_mem_cons.mpr ⟨fun _ => by decide, List.forall_mem_singleton.mpr ?_⟩
  intro name q hn _ hq
  obtain rfl := Option.some.inj hn
  obtain rfl := Option.some.inj hq
  decide

/-- A circuit breaker whose fields are all blank can be saved; it is left out of the YAML, and the
    app still refers to it. -/
theorem blank_breaker_dangles :
    (∀ p ∈ visited reducer initialState (saveAndUse blankForm),
        Admissible (Nat.ofDigitChars 10 · 0) p.1 p.2) ∧
      ¬ NoDangling
        (assembleResiliency ((saveAndUse blankForm).foldl reducer initialState).config) := by
  refine ⟨@admissible_saveAndUse newBreaker blankForm (by decide), fun h => ?_⟩
  obtain ⟨q, hq, hw⟩ := noDangling_iff.mp h ⟨none, none, some "cb".toList⟩
    (List.mem_singleton_self _) .circuitBreaker "cb".toList rfl (by decide)
  obtain rfl := Option.some.inj hq
  exact absurd ((written_circuitBreaker_iff _).mp hw) (by decide)

end DevDashboard.Web.Resiliency
