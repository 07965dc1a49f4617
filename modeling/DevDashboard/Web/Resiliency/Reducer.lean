/-
  File:      DevDashboard/Web/Resiliency/Reducer.lean
  Subject:   THE STATE OF THE RESILIENCY BUILDER (types/resiliency.ts and
             pages/resiliency-builder/reducer.ts).

  A configuration has named policies of three kinds, and targets (apps, actors, the two legs of
  components) that refer to policies by name. Renaming or removing a policy is carried into
  every target. Numbers are values of a type `ν`; metadata other than the name and the namespace
  is left out. Where the code shares an unchanged object instead of copying it, the function
  returns `none`.

  * `remapPolicyRefs_eq` -- the cascade, as a map over every target and leg;
  * `rename_remove_policies` -- **what a rename and a removal keep**: after a rename every
    reference finds the policy it found before, and nothing else moves, as long as the new name
    takes the old one's place in the order of the object's properties; a removal clears the
    references to the policy and nothing else;
  * `keepsPlace_of_not_index` -- which it does where neither name is an array index.
-/
import DevDashboard.Lib.JsObject
import Mathlib.Data.List.Forall2

namespace DevDashboard.Web.Resiliency

open Lib

/-! ## 1. types/resiliency.ts -/

section Types

variable (ν : Type)

inductive RetryKind where
  | constant
  | exponential
  deriving DecidableEq

structure Matching where
  httpStatusCodes : Option Str
  grpcStatusCodes : Option Str
  deriving DecidableEq

structure RetryPolicy where
  policy : Option RetryKind
  duration : Option Str
  maxRetries : Option ν
  maxInterval : Option Str
  matching : Option Matching
  deriving DecidableEq

structure CircuitBreakerPolicy where
  maxRequests : Option ν
  timeout : Option Str
  trip : Option Str
  interval : Option Str
  deriving DecidableEq

structure Policies where
  timeouts : Obj Str
  retries : Obj (RetryPolicy ν)
  circuitBreakers : Obj (CircuitBreakerPolicy ν)

/-- `PolicyRefs`: an `AppTarget`, or one leg of a component. -/
structure PolicyRefs where
  timeout : Option Str
  retry : Option Str
  circuitBreaker : Option Str
  deriving DecidableEq

inductive CircuitBreakerScope where
  | type
  | id
  | both
  | unset
  deriving DecidableEq

structure ActorTarget extends PolicyRefs where
  circuitBreakerScope : Option CircuitBreakerScope
  circuitBreakerCacheSize : Option ν
  deriving DecidableEq

structure ComponentTarget where
  outbound : Option PolicyRefs
  inbound : Option PolicyRefs
  deriving DecidableEq

structure Targets where
  apps : Option (Obj PolicyRefs)
  actors : Option (Obj (ActorTarget ν))
  components : Option (Obj ComponentTarget)

structure Spec where
  policies : Policies ν
  targets : Targets ν

structure Metadata where
  name : Str
  «namespace» : Option Str

structure DaprResiliency where
  apiVersion : Str
  kind : Str
  metadata : Metadata
  scopes : List Str
  spec : Spec ν

structure ResiliencyState where
  config : DaprResiliency ν
  activeStep : Nat

end Types

variable {ν : Type}

/-- `defaultResiliencyConfig`. -/
def defaultResiliencyConfig : DaprResiliency ν where
  apiVersion := "dapr.io/v1alpha1".toList
  kind := "Resiliency".toList
  metadata := { name := [], «namespace» := some "default".toList }
  scopes := []
  spec :=
    { policies := { timeouts := .empty, retries := .empty, circuitBreakers := .empty }
      targets := { apps := some .empty, actors := some .empty, components := some .empty } }

/-- `initialState`. -/
def initialState : ResiliencyState ν := ⟨defaultResiliencyConfig, 0⟩

/-! ## 2. References to policies -/

inductive PolicyField where
  | timeout
  | retry
  | circuitBreaker
  deriving DecidableEq

namespace PolicyRefs

/-- `leg[field]`. -/
def get (leg : PolicyRefs) : PolicyField → Option Str
  | .timeout => leg.timeout
  | .retry => leg.retry
  | .circuitBreaker => leg.circuitBreaker

/-- `leg` with `leg[field]` set, or deleted. -/
def set (leg : PolicyRefs) (field : PolicyField) (ref : Option Str) : PolicyRefs :=
  match field with
  | .timeout => { leg with timeout := ref }
  | .retry => { leg with retry := ref }
  | .circuitBreaker => { leg with circuitBreaker := ref }

@[ext]
theorem ext_get {a b : PolicyRefs} (h : ∀ f, a.get f = b.get f) : a = b := by
  obtain ⟨ht, hr, hc⟩ := And.intro (h .timeout) (And.intro (h .retry) (h .circuitBreaker))
  cases a
  cases b
  simp_all [get]

@[simp] theorem get_set (leg : PolicyRefs) (f g : PolicyField) (ref : Option Str) :
    (leg.set f ref).get g = if g = f then ref else leg.get g := by
  cases f <;> cases g <;> rfl

theorem set_get (leg : PolicyRefs) (f : PolicyField) : leg.set f (leg.get f) = leg := by
  cases f <;> rfl

theorem set_set (leg : PolicyRefs) (f : PolicyField) (a b : Option Str) :
    (leg.set f a).set f b = leg.set f b := by
  cases f <;> rfl

end PolicyRefs

/-- What `remapRef` is used on: an app target or a leg, or an actor target. -/
class Leg (T : Type) where
  refs : T → PolicyRefs
  withRefs : T → PolicyRefs → T
  /-- `delete next.circuitBreakerScope`, `delete next.circuitBreakerCacheSize`. -/
  withoutScope : T → T

instance : Leg PolicyRefs := ⟨id, fun _ refs => refs, id⟩

instance : Leg (ActorTarget ν) where
  refs t := t.toPolicyRefs
  withRefs t refs := { t with toPolicyRefs := refs }
  withoutScope t := { t with circuitBreakerScope := none, circuitBreakerCacheSize := none }

/-- `remapRef`: `none` is the leg itself. -/
def remapRef {T : Type} [Leg T] (leg : T) (field : PolicyField) (from' : Str) (to' : Option Str) :
    Option T :=
  if (Leg.refs leg).get field ≠ some from' then none
  else
    match to' with
    | some name => some (Leg.withRefs leg ((Leg.refs leg).set field (some name)))
    | none =>
        let next := Leg.withRefs leg ((Leg.refs leg).set field none)
        some (if field = .circuitBreaker then Leg.withoutScope next else next)

/-- `mapValues`: `none` is the map itself. -/
def mapValues {T : Type} (map : Option (Obj T)) (fn : T → Option T) : Option (Obj T) :=
  match map with
  | none => none
  | some m =>
      let next := Obj.build (m.entries.map fun e => (e.1, (fn e.2).getD e.2))
      if m.entries.any fun e => (fn e.2).isSome then some next else none

/-- The function that `remapPolicyRefs` maps over the components. -/
def remapComponent (field : PolicyField) (from' : Str) (to' : Option Str) (t : ComponentTarget) :
    Option ComponentTarget :=
  let outbound := t.outbound.bind fun leg => remapRef leg field from' to'
  let inbound := t.inbound.bind fun leg => remapRef leg field from' to'
  if outbound = none ∧ inbound = none then none
  else some { outbound := outbound.or t.outbound, inbound := inbound.or t.inbound }

/-- `remapPolicyRefs`. -/
def remapPolicyRefs (targets : Targets ν) (field : PolicyField) (from' : Str) (to' : Option Str) :
    Targets ν :=
  let apps := mapValues targets.apps fun t => remapRef t field from' to'
  let actors := mapValues targets.actors fun t => remapRef t field from' to'
  let components := mapValues targets.components (remapComponent field from' to')
  if apps.isNone && actors.isNone && components.isNone then targets
  else
    { apps := apps.or targets.apps
      actors := actors.or targets.actors
      components := components.or targets.components }

/-! ## 3. The reducer -/

/-- `withoutKey`. -/
def withoutKey {T : Type} (map : Obj T) (key : Str) : Obj T := map.erase key

/-- `renamedKey`. -/
def renamedKey {T : Type} (map : Obj T) (from' to' : Str) : Obj T :=
  if ¬ map.hasProperty from' then map
  else Obj.build (map.entries.map fun e => (if e.1 = from' then to' else e.1, e.2))

variable (ν) in
inductive Action where
  | setName (name : Str)
  | setNamespace («namespace» : Str)
  | upsertTimeout (name : Str) (duration : Str)
  | removeTimeout (name : Str)
  | renameTimeout (from' to' : Str)
  | upsertRetry (name : Str) (policy : RetryPolicy ν)
  | removeRetry (name : Str)
  | renameRetry (from' to' : Str)
  | upsertCb (name : Str) (policy : CircuitBreakerPolicy ν)
  | removeCb (name : Str)
  | renameCb (from' to' : Str)
  | upsertApp (name : Str) (target : PolicyRefs)
  | removeApp (name : Str)
  | upsertActor (name : Str) (target : ActorTarget ν)
  | removeActor (name : Str)
  | upsertComponent (name : Str) (target : ComponentTarget)
  | removeComponent (name : Str)
  | next
  | back

/-- The reducer's `set`, of both parts of `spec`. -/
def ResiliencyState.setSpec (state : ResiliencyState ν) (policies : Policies ν)
    (targets : Targets ν) : ResiliencyState ν :=
  { state with config := { state.config with spec := { policies, targets } } }

/-- `map ?? {}`. -/
def orEmpty {T : Type} (map : Option (Obj T)) : Obj T := map.getD .empty

/-- `reducer`. -/
def reducer (state : ResiliencyState ν) (action : Action ν) : ResiliencyState ν :=
  let cfg := state.config
  let pol := cfg.spec.policies
  let tgt := cfg.spec.targets
  match action with
  | .setName name => { state with config := { cfg with metadata := { cfg.metadata with name } } }
  | .setNamespace ns =>
      { state with config := { cfg with metadata := { cfg.metadata with «namespace» := some ns } } }
  | .upsertTimeout name duration =>
      state.setSpec { pol with timeouts := pol.timeouts.define name duration } tgt
  | .removeTimeout name =>
      state.setSpec { pol with timeouts := withoutKey pol.timeouts name }
        (remapPolicyRefs tgt .timeout name none)
  | .renameTimeout from' to' =>
      state.setSpec { pol with timeouts := renamedKey pol.timeouts from' to' }
        (remapPolicyRefs tgt .timeout from' (some to'))
  | .upsertRetry name policy =>
      state.setSpec { pol with retries := pol.retries.define name policy } tgt
  | .removeRetry name =>
      state.setSpec { pol with retries := withoutKey pol.retries name }
        (remapPolicyRefs tgt .retry name none)
  | .renameRetry from' to' =>
      state.setSpec { pol with retries := renamedKey pol.retries from' to' }
        (remapPolicyRefs tgt .retry from' (some to'))
  | .upsertCb name policy =>
      state.setSpec { pol with circuitBreakers := pol.circuitBreakers.define name policy } tgt
  | .removeCb name =>
      state.setSpec { pol with circuitBreakers := withoutKey pol.circuitBreakers name }
        (remapPolicyRefs tgt .circuitBreaker name none)
  | .renameCb from' to' =>
      state.setSpec { pol with circuitBreakers := renamedKey pol.circuitBreakers from' to' }
        (remapPolicyRefs tgt .circuitBreaker from' (some to'))
  | .upsertApp name target =>
      state.setSpec pol { tgt with apps := some ((orEmpty tgt.apps).define name target) }
  | .removeApp name =>
      state.setSpec pol { tgt with apps := some (withoutKey (orEmpty tgt.apps) name) }
  | .upsertActor name target =>
      state.setSpec pol { tgt with actors := some ((orEmpty tgt.actors).define name target) }
  | .removeActor name =>
      state.setSpec pol { tgt with actors := some (withoutKey (orEmpty tgt.actors) name) }
  | .upsertComponent name target =>
      state.setSpec pol
        { tgt with components := some ((orEmpty tgt.components).define name target) }
  | .removeComponent name =>
      state.setSpec pol { tgt with components := some (withoutKey (orEmpty tgt.components) name) }
  | .next => { state with activeStep := state.activeStep + 1 }
  | .back => { state with activeStep := state.activeStep - 1 }

/-! ## 4. The three kinds of policy, and all references -/

/-- The values of a kind of policy. -/
def PolicyOf (ν : Type) : PolicyField → Type
  | .timeout => Str
  | .retry => RetryPolicy ν
  | .circuitBreaker => CircuitBreakerPolicy ν

namespace Policies

/-- The policies of a kind. -/
def map (p : Policies ν) : (f : PolicyField) → Obj (PolicyOf ν f)
  | .timeout => p.timeouts
  | .retry => p.retries
  | .circuitBreaker => p.circuitBreakers

def setMap (p : Policies ν) : (f : PolicyField) → Obj (PolicyOf ν f) → Policies ν
  | .timeout, m => { p with timeouts := m }
  | .retry, m => { p with retries := m }
  | .circuitBreaker, m => { p with circuitBreakers := m }

@[simp] theorem map_setMap (p : Policies ν) (f : PolicyField) (m : Obj (PolicyOf ν f)) :
    (p.setMap f m).map f = m := by
  cases f <;> rfl

theorem map_setMap_of_ne (p : Policies ν) {f g : PolicyField} (m : Obj (PolicyOf ν f))
    (h : g ≠ f) : (p.setMap f m).map g = p.map g := by
  cases f <;> cases g <;> first | rfl | exact absurd rfl h

@[simp] theorem setMap_setMap (p : Policies ν) (f : PolicyField) (m n : Obj (PolicyOf ν f)) :
    (p.setMap f m).setMap f n = p.setMap f n := by
  cases f <;> rfl

@[simp] theorem setMap_map (p : Policies ν) (f : PolicyField) : p.setMap f (p.map f) = p := by
  cases f <;> rfl

/-- The policy that a leg's reference of a kind stands for. -/
def resolve (p : Policies ν) (leg : PolicyRefs) (f : PolicyField) : Option (PolicyOf ν f) :=
  (leg.get f).bind (p.map f).get

end Policies

/-- The three `REMOVE_*` of policies. -/
def removeAction : PolicyField → Str → Action ν
  | .timeout, name => .removeTimeout name
  | .retry, name => .removeRetry name
  | .circuitBreaker, name => .removeCb name

/-- The three `RENAME_*`. -/
def renameAction : PolicyField → Str → Str → Action ν
  | .timeout, from', to' => .renameTimeout from' to'
  | .retry, from', to' => .renameRetry from' to'
  | .circuitBreaker, from', to' => .renameCb from' to'

theorem reducer_removeAction (s : ResiliencyState ν) (f : PolicyField) (name : Str) :
    reducer s (removeAction f name) =
      s.setSpec (s.config.spec.policies.setMap f (withoutKey (s.config.spec.policies.map f) name))
        (remapPolicyRefs s.config.spec.targets f name none) := by
  cases f <;> rfl

theorem reducer_renameAction (s : ResiliencyState ν) (f : PolicyField) (from' to' : Str) :
    reducer s (renameAction f from' to') =
      s.setSpec
        (s.config.spec.policies.setMap f (renamedKey (s.config.spec.policies.map f) from' to'))
        (remapPolicyRefs s.config.spec.targets f from' (some to')) := by
  cases f <;> rfl

/-- `Object.values(map ?? {})`. -/
def valuesOf {T : Type} (map : Option (Obj T)) : List T := (orEmpty map).entries.map Prod.snd

def ComponentTarget.legs (t : ComponentTarget) : List PolicyRefs :=
  t.outbound.toList ++ t.inbound.toList

/-- Whatever refers to policies: every app, every actor and every leg of a component. -/
def Targets.refs (t : Targets ν) : List PolicyRefs :=
  valuesOf t.apps ++ (valuesOf t.actors).map ActorTarget.toPolicyRefs ++
    (valuesOf t.components).flatMap ComponentTarget.legs

/-- Every reference names an existing policy. -/
def RefsExist (s : ResiliencyState ν) : Prop :=
  ∀ leg ∈ s.config.spec.targets.refs, ∀ f name, leg.get f = some name →
    name ∈ (s.config.spec.policies.map f).keys

/-- No map has a property `__proto__`. -/
structure NoProto (s : ResiliencyState ν) : Prop where
  policies : ∀ f, Obj.protoName ∉ (s.config.spec.policies.map f).keys
  apps : ∀ m ∈ s.config.spec.targets.apps, Obj.protoName ∉ m.keys
  actors : ∀ m ∈ s.config.spec.targets.actors, Obj.protoName ∉ m.keys
  components : ∀ m ∈ s.config.spec.targets.components, Obj.protoName ∉ m.keys

/-! ## 5. The cascade -/

section Cascade

variable {T : Type} {f : PolicyField} {from' : Str} {to' : Option Str}

/-- A leg as the cascade leaves it. -/
def remapped [Leg T] (f : PolicyField) (from' : Str) (to' : Option Str) (leg : T) : T :=
  (remapRef leg f from' to').getD leg

def remappedComponent (f : PolicyField) (from' : Str) (to' : Option Str) (t : ComponentTarget) :
    ComponentTarget :=
  { outbound := t.outbound.map (remapped f from' to')
    inbound := t.inbound.map (remapped f from' to') }

theorem or_eq_map (leg : Option PolicyRefs) (f : PolicyField) (from' : Str) (to' : Option Str) :
    (leg.bind fun leg => remapRef leg f from' to').or leg = leg.map (remapped f from' to') := by
  cases leg with
  | none => rfl
  | some leg =>
      simp only [Option.bind_some, Option.map_some, remapped]
      cases remapRef leg f from' to' <;> rfl

theorem remapComponent_getD (f : PolicyField) (from' : Str) (to' : Option Str)
    (t : ComponentTarget) :
    (remapComponent f from' to' t).getD t = remappedComponent f from' to' t := by
  have hout := or_eq_map t.outbound f from' to'
  have hin := or_eq_map t.inbound f from' to'
  simp only [remapComponent, remappedComponent]
  split
  · next h =>
      rw [h.1, Option.none_or] at hout
      rw [h.2, Option.none_or] at hin
      rw [← hout, ← hin]
      rfl
  · rw [← hout, ← hin]
    rfl

theorem mapValues_or_eq {map : Option (Obj T)} (h : ∀ m ∈ map, Obj.protoName ∉ m.keys)
    (fn : T → Option T) :
    (mapValues map fn).or map = map.map (Obj.mapVals fun v => (fn v).getD v) := by
  cases map with
  | none => rfl
  | some m =>
      have hm := h m rfl
      simp only [mapValues, Option.map_some]
      split
      · refine congrArg some (Obj.ext ?_)
        refine Obj.entries_build (m.ordered_mapVals fun v => (fn v).getD v) fun e he hk => hm ?_
        obtain ⟨d, hd, rfl⟩ := List.mem_map.mp he
        have hd1 : d.1 = Obj.protoName := hk
        exact hd1 ▸ Obj.mem_keys_of_mem hd
      · next hany =>
          refine congrArg some (Obj.mapVals_eq_self fun e he => ?_).symm
          rw [List.any_eq_true] at hany
          cases hfn : fn e.2 with
          | none => rfl
          | some v => exact absurd ⟨e, he, by rw [hfn]; rfl⟩ hany

/-- Whatever the names: a value of the result is a value of the map, or what it became. -/
theorem mem_mapValues_or {map : Option (Obj T)} {fn : T → Option T} {v : T}
    (h : v ∈ valuesOf ((mapValues map fn).or map)) : ∃ u ∈ valuesOf map, v = (fn u).getD u := by
  cases map with
  | none => exact absurd h List.not_mem_nil
  | some m =>
      obtain ⟨e, he, rfl⟩ := List.mem_map.mp h
      simp only [mapValues] at he
      split at he
      · have he := Obj.mem_of_mem_build he
        obtain ⟨d, hd, rfl⟩ := List.mem_map.mp he
        exact ⟨d.2, List.mem_map_of_mem hd, rfl⟩
      · next hany =>
          refine ⟨e.2, List.mem_map_of_mem he, ?_⟩
          cases hfn : fn e.2 with
          | none => rfl
          | some v => exact absurd (List.any_eq_true.mpr ⟨e, he, by rw [hfn]; rfl⟩) hany

theorem remapPolicyRefs_or (t : Targets ν) (f : PolicyField) (from' : Str) (to' : Option Str) :
    remapPolicyRefs t f from' to' =
      { apps := (mapValues t.apps fun t => remapRef t f from' to').or t.apps
        actors := (mapValues t.actors fun t => remapRef t f from' to').or t.actors
        components := (mapValues t.components (remapComponent f from' to')).or t.components } := by
  simp only [remapPolicyRefs]
  split
  · next h =>
      simp only [Bool.and_eq_true, Option.isNone_iff_eq_none] at h
      rw [h.1.1, h.1.2, h.2]
      rfl
  · rfl

/-- The references after a cascade, whatever the names of the targets. -/
theorem exists_of_mem_refs_remap {t : Targets ν} {leg' : PolicyRefs}
    (hactor : ∀ u : ActorTarget ν,
      (remapped f from' to' u).toPolicyRefs = remapped f from' to' u.toPolicyRefs)
    (h : leg' ∈ (remapPolicyRefs t f from' to').refs) :
    ∃ leg ∈ t.refs, leg' = remapped f from' to' leg := by
  rw [remapPolicyRefs_or] at h
  rcases List.mem_append.mp h with h | h
  · rcases List.mem_append.mp h with h | h
    · obtain ⟨u, hu, rfl⟩ := mem_mapValues_or h
      exact ⟨u, List.mem_append_left _ (List.mem_append_left _ hu), rfl⟩
    · obtain ⟨v, hv, rfl⟩ := List.mem_map.mp h
      obtain ⟨u, hu, rfl⟩ := mem_mapValues_or hv
      exact ⟨u.toPolicyRefs,
        List.mem_append_left _ (List.mem_append_right _ (List.mem_map_of_mem hu)), hactor u⟩
  · obtain ⟨c, hc, hl⟩ := List.mem_flatMap.mp h
    obtain ⟨u, hu, rfl⟩ := mem_mapValues_or hc
    rw [remapComponent_getD, ComponentTarget.legs, remappedComponent] at hl
    have hleg : ∀ leg ∈ u.legs, leg ∈ t.refs := fun leg hleg =>
      List.mem_append_right _ (List.mem_flatMap.mpr ⟨u, hu, hleg⟩)
    rcases List.mem_append.mp hl with hl | hl
    · obtain ⟨leg, hm, rfl⟩ := Option.map_eq_some_iff.mp (Option.mem_toList.mp hl)
      exact ⟨leg, hleg leg (List.mem_append_left _ (Option.mem_toList.mpr hm)), rfl⟩
    · obtain ⟨leg, hm, rfl⟩ := Option.map_eq_some_iff.mp (Option.mem_toList.mp hl)
      exact ⟨leg, hleg leg (List.mem_append_right _ (Option.mem_toList.mpr hm)), rfl⟩

/-- **The cascade**, where no target is named `__proto__`. -/
theorem remapPolicyRefs_eq {s : ResiliencyState ν} (h : NoProto s) (f : PolicyField) (from' : Str)
    (to' : Option Str) :
    remapPolicyRefs s.config.spec.targets f from' to' =
      { apps := s.config.spec.targets.apps.map (Obj.mapVals (remapped f from' to'))
        actors := s.config.spec.targets.actors.map (Obj.mapVals (remapped f from' to'))
        components :=
          s.config.spec.targets.components.map (Obj.mapVals (remappedComponent f from' to')) } := by
  rw [remapPolicyRefs_or, mapValues_or_eq h.apps, mapValues_or_eq h.actors,
    mapValues_or_eq h.components]
  simp only [remapComponent_getD]
  rfl

end Cascade

/-! ## 6. A renamed key -/

section RenamedKey

variable {T : Type} {m : Obj T} {from' to' : Str}

/-- The properties with one name replaced in its place. -/
def renamedEntries (es : List (Str × T)) (from' to' : Str) : List (Str × T) :=
  es.map fun e => (if e.1 = from' then to' else e.1, e.2)

/-- The new name may stand where the old one stands. -/
def KeepsPlace (m : Obj T) (from' to' : Str) : Prop := Ordered (renamedEntries m.entries from' to')

/-- A name that is no array index takes the place of another. -/
theorem keepsPlace_of_not_index (m : Obj T) (hfrom : arrayIndex? from' = none)
    (hto : arrayIndex? to' = none) (h : to' ∉ m.keys) : KeepsPlace m from' to' := by
  refine List.pairwise_map.mpr (m.ordered.imp_of_mem fun {a b} ha hb hab => ?_)
  have hne : ∀ c ∈ m.entries, c.1 ≠ to' := fun c hc hk => h (hk ▸ Obj.mem_keys_of_mem hc)
  simp only
  split
  · next hfa =>
      split
      · next hfb => exact absurd (hfa.trans hfb.symm) hab.1
      · refine ⟨Ne.symm (hne b hb), ?_⟩
        have hb' := hab.2
        simp only [before, hfa, hfrom, hto] at hb' ⊢
        exact hb'
  · split
    · exact ⟨hne a ha, before_of_not_index hto⟩
    · exact hab

theorem lookup_renamedEntries {es : List (Str × T)} (h : ∀ e ∈ es, e.1 ≠ to') (n : Str) :
    (renamedEntries es from' to').lookup n =
      if n = to' then es.lookup from' else if n = from' then none else es.lookup n := by
  induction es with
  | nil => simp [renamedEntries]
  | cons e es ih =>
      obtain ⟨he, hes⟩ := List.forall_mem_cons.mp h
      have hstep : renamedEntries (e :: es) from' to' =
        (if e.1 = from' then to' else e.1, e.2) :: renamedEntries es from' to' := rfl
      rw [hstep, lookup_cons_ite, lookup_cons_ite, lookup_cons_ite, ih hes]
      by_cases hf : e.1 = from'
      · have hft : from' ≠ to' := hf ▸ he
        rw [if_pos hf, hf]
        by_cases hn : n = to'
        · simp [hn]
        · by_cases hn' : n = from' <;> simp [hn, hn', hft]
      · rw [if_neg hf]
        by_cases hn : n = e.1
        · simp [hn, he, hf]
        · simp [hn, Ne.symm hf]

theorem filter_renamedEntries {es : List (Str × T)} (h : ∀ e ∈ es, e.1 ≠ to') :
    (renamedEntries es from' to').filter (fun e => decide (e.1 ≠ to')) =
      es.filter fun e => decide (e.1 ≠ from') := by
  induction es with
  | nil => rfl
  | cons e es ih =>
      obtain ⟨he, hes⟩ := List.forall_mem_cons.mp h
      have hstep : renamedEntries (e :: es) from' to' =
        (if e.1 = from' then to' else e.1, e.2) :: renamedEntries es from' to' := rfl
      rw [hstep, List.filter_cons, List.filter_cons, ih hes]
      by_cases hf : e.1 = from' <;> simp [hf, he]

theorem renamedEntries_back {es : List (Str × T)} (h : ∀ e ∈ es, e.1 ≠ to') :
    renamedEntries (renamedEntries es from' to') to' from' = es := by
  rw [renamedEntries, renamedEntries, List.map_map]
  refine (List.map_congr_left fun e he => ?_).trans (List.map_id _)
  obtain ⟨k, v⟩ := e
  by_cases hf : k = from'
  · simp [hf]
  · simp [hf, h _ he]

theorem renamedKey_of_mem (h : from' ∈ m.keys) :
    renamedKey m from' to' = Obj.build (renamedEntries m.entries from' to') := by
  refine if_neg (not_not.mpr ?_)
  simp [Obj.hasProperty, h]

/-- A name that no policy has: nothing is renamed. -/
theorem renamedKey_of_not_mem (hproto : Obj.protoName ∉ m.keys) (h : from' ∉ m.keys) :
    renamedKey m from' to' = m := by
  have hid : m.entries.map (fun e => (if e.1 = from' then to' else e.1, e.2)) = m.entries := by
    refine (List.map_congr_left fun e he => ?_).trans (List.map_id _)
    have hne : e.1 ≠ from' := fun hk => h (hk ▸ Obj.mem_keys_of_mem he)
    rw [if_neg hne]
    rfl
  rw [renamedKey, hid]
  split
  · rfl
  · exact Obj.ext (Obj.entries_build m.ordered fun e he hk => hproto (hk ▸ Obj.mem_keys_of_mem he))

theorem nodup_renamedEntries (h : to' ∉ m.keys) :
    ((renamedEntries m.entries from' to').map Prod.fst).Nodup := by
  rw [renamedEntries, List.map_map]
  refine List.pairwise_map.mpr (m.ordered.imp_of_mem fun {a b} ha hb hab => ?_)
  have hne : ∀ c ∈ m.entries, c.1 ≠ to' := fun c hc hk => h (hk ▸ Obj.mem_keys_of_mem hc)
  simp only [Function.comp_apply]
  split
  · next hfa =>
      split
      · next hfb => exact absurd (hfa.trans hfb.symm) hab.1
      · exact Ne.symm (hne b hb)
  · split
    · exact hne a ha
    · exact hab.1

/-- The names other than the two are found as before, whatever the new name. -/
theorem get_renamedKey_of_ne (hproto : Obj.protoName ∉ m.keys) (hunused : to' ∉ m.keys) {n : Str}
    (hf : n ≠ from') (ht : n ≠ to') : (renamedKey m from' to').get n = m.get n := by
  by_cases hold : from' ∈ m.keys
  · by_cases hn : n = Obj.protoName
    · have hnone : ∀ k : Obj T, Obj.protoName ∉ k.keys → k.get n = none := fun k hk => by
        rw [hn, ← Option.not_isSome_iff_eq_none, Obj.get_isSome_iff]
        exact hk
      rw [renamedKey_of_mem hold, hnone _ (Obj.proto_not_mem_build _), hnone m hproto]
    · have hne : ∀ c ∈ m.entries, c.1 ≠ to' := fun c hc hk => hunused (hk ▸ Obj.mem_keys_of_mem hc)
      rw [renamedKey_of_mem hold, Obj.get_build_of_ne (nodup_renamedEntries hunused) hn,
        lookup_renamedEntries hne, if_neg ht, if_neg hf]
      rfl
  · rw [renamedKey_of_not_mem hproto hold]

/-- A rename makes no new values. -/
theorem exists_get_of_renamedKey {n : Str} {v : T} (h : (renamedKey m from' to').get n = some v) :
    ∃ k, m.get k = some v := by
  rw [renamedKey] at h
  split at h
  · exact ⟨n, h⟩
  · obtain ⟨e, he, heq⟩ := List.mem_map.mp (Obj.mem_of_mem_build (Obj.mem_of_get h))
    obtain ⟨-, rfl⟩ := Prod.mk.inj heq
    exact ⟨e.1, Obj.get_of_mem he⟩

theorem proto_not_mem_renamedKey (hproto : Obj.protoName ∉ m.keys) :
    Obj.protoName ∉ (renamedKey m from' to').keys := by
  rw [renamedKey]
  split
  · exact hproto
  · exact Obj.proto_not_mem_build _

/-- What a rename to an unused name needs. -/
structure FreshName (m : Obj T) (from' to' : Str) : Prop where
  old : from' ∈ m.keys
  unused : to' ∉ m.keys
  proto : to' ≠ Obj.protoName

variable (hproto : Obj.protoName ∉ m.keys) (hfresh : FreshName m from' to')
include hproto hfresh

theorem ne_proto_of_mem_renamedEntries :
    ∀ e ∈ renamedEntries m.entries from' to', e.1 ≠ Obj.protoName := by
  intro e he
  obtain ⟨d, hd, rfl⟩ := List.mem_map.mp he
  simp only
  split
  · exact hfresh.proto
  · exact fun hk => hproto (hk ▸ Obj.mem_keys_of_mem hd)

omit hproto in
theorem ne_of_mem_entries : ∀ e ∈ m.entries, e.1 ≠ to' := fun _ he hk =>
  hfresh.unused (hk ▸ Obj.mem_keys_of_mem he)

theorem entries_renamedKey (hplace : KeepsPlace m from' to') :
    (renamedKey m from' to').entries = renamedEntries m.entries from' to' := by
  rw [renamedKey_of_mem hfresh.old]
  exact Obj.entries_build hplace (ne_proto_of_mem_renamedEntries hproto hfresh)

theorem get_renamedKey (n : Str) :
    (renamedKey m from' to').get n =
      if n = to' then m.get from' else if n = from' then none else m.get n := by
  rw [renamedKey_of_mem hfresh.old, Obj.get_build (nodup_renamedEntries hfresh.unused)
    (ne_proto_of_mem_renamedEntries hproto hfresh)]
  exact lookup_renamedEntries (ne_of_mem_entries hfresh) n

theorem filter_renamedKey :
    (renamedKey m from' to').entries.filter (fun e => decide (e.1 ≠ to')) =
      m.entries.filter fun e => decide (e.1 ≠ from') := by
  have hfil := @filter_renamedEntries T from' to' _ (ne_of_mem_entries hfresh)
  rw [renamedKey_of_mem hfresh.old, ← hfil]
  refine Obj.filter_build (p := fun k => decide (k ≠ to')) ?_
    (ne_proto_of_mem_renamedEntries hproto hfresh)
  rw [hfil]
  exact m.ordered.filter _

/-- Renaming back gives the map again. -/
theorem renamedKey_back (hplace : KeepsPlace m from' to') :
    renamedKey (renamedKey m from' to') to' from' = m := by
  have hes := entries_renamedKey hproto hfresh hplace
  have hmem : to' ∈ (renamedKey m from' to').keys := by
    rw [← Obj.get_isSome_iff, get_renamedKey hproto hfresh, if_pos rfl]
    exact Obj.get_isSome_iff.mpr hfresh.old
  rw [renamedKey_of_mem hmem, hes, renamedEntries_back (ne_of_mem_entries hfresh)]
  refine Obj.ext (Obj.entries_build m.ordered fun e he hk => hproto ?_)
  exact hk ▸ Obj.mem_keys_of_mem he

end RenamedKey

/-! ## 7. What a rename and a removal keep -/

/-- The same names in the same order, with related values. -/
def SameEntries {T : Type} (R : T → T → Prop) (m m' : Obj T) : Prop :=
  List.Forall₂ (fun e e' => e.1 = e'.1 ∧ R e.2 e'.2) m.entries m'.entries

/-- Every reference of a leg is still there, and finds the policy that it found. -/
def KeepsRefs (p p' : Policies ν) (leg leg' : PolicyRefs) : Prop :=
  ∀ g, (leg'.get g).isSome = (leg.get g).isSome ∧ p'.resolve leg' g = p.resolve leg g

/-- The references of a kind to a name are gone, and only they. -/
def ClearsRefs (f : PolicyField) (name : Str) (leg leg' : PolicyRefs) : Prop :=
  ∀ g, leg'.get g = if g = f ∧ leg.get g = some name then none else leg.get g

/-- What a step keeps besides the policies of one kind and the targets. -/
structure SameRest (f : PolicyField) (s s' : ResiliencyState ν) : Prop where
  kinds : ∀ g ≠ f, s'.config.spec.policies.map g = s.config.spec.policies.map g
  config : { s'.config with spec := s.config.spec } = s.config
  activeStep : s'.activeStep = s.activeStep

/-- What `RENAME_*` does to a state. -/
structure Renamed (f : PolicyField) (from' to' : Str) (s s' : ResiliencyState ν) : Prop where
  apps : Option.Rel (SameEntries (KeepsRefs s.config.spec.policies s'.config.spec.policies))
    s.config.spec.targets.apps s'.config.spec.targets.apps
  actors : Option.Rel
    (SameEntries fun t t' =>
      KeepsRefs s.config.spec.policies s'.config.spec.policies t.toPolicyRefs t'.toPolicyRefs ∧
        t'.circuitBreakerScope = t.circuitBreakerScope ∧
        t'.circuitBreakerCacheSize = t.circuitBreakerCacheSize)
    s.config.spec.targets.actors s'.config.spec.targets.actors
  components : Option.Rel
    (SameEntries fun t t' =>
      Option.Rel (KeepsRefs s.config.spec.policies s'.config.spec.policies) t.outbound t'.outbound ∧
        Option.Rel (KeepsRefs s.config.spec.policies s'.config.spec.policies) t.inbound t'.inbound)
    s.config.spec.targets.components s'.config.spec.targets.components
  values : ∀ name, (s'.config.spec.policies.map f).get name =
    if name = to' then (s.config.spec.policies.map f).get from'
    else if name = from' then none else (s.config.spec.policies.map f).get name
  order : (s'.config.spec.policies.map f).entries.filter (fun e => decide (e.1 ≠ to')) =
    (s.config.spec.policies.map f).entries.filter fun e => decide (e.1 ≠ from')
  rest : SameRest f s s'

/-- What `REMOVE_*` does to a state. -/
structure Removed (f : PolicyField) (name : Str) (s s' : ResiliencyState ν) : Prop where
  apps : Option.Rel (SameEntries (ClearsRefs f name))
    s.config.spec.targets.apps s'.config.spec.targets.apps
  actors : Option.Rel
    (SameEntries fun t t' =>
      ClearsRefs f name t.toPolicyRefs t'.toPolicyRefs ∧
        (t'.circuitBreakerScope, t'.circuitBreakerCacheSize) =
          if f = .circuitBreaker ∧ t.circuitBreaker = some name then (none, none)
          else (t.circuitBreakerScope, t.circuitBreakerCacheSize))
    s.config.spec.targets.actors s'.config.spec.targets.actors
  components : Option.Rel
    (SameEntries fun t t' =>
      Option.Rel (ClearsRefs f name) t.outbound t'.outbound ∧
        Option.Rel (ClearsRefs f name) t.inbound t'.inbound)
    s.config.spec.targets.components s'.config.spec.targets.components
  policies : (s'.config.spec.policies.map f).entries =
    (s.config.spec.policies.map f).entries.filter fun e => decide (e.1 ≠ name)
  rest : SameRest f s s'

section Frame

variable {T : Type} {s : ResiliencyState ν} {f : PolicyField} {from' to' name : Str}

theorem sameEntries_mapVals {R : T → T → Prop} {g : T → T} {m : Obj T}
    (h : ∀ e ∈ m.entries, R e.2 (g e.2)) : SameEntries R m (m.mapVals g) := by
  refine List.forall₂_map_right_iff.mpr (List.forall₂_same.mpr fun e he => ⟨rfl, h e he⟩)

theorem rel_map {U : Type} {R : U → U → Prop} {g : U → U} {o : Option U} (h : ∀ u ∈ o, R u (g u)) :
    Option.Rel R o (o.map g) := by
  cases o with
  | none => exact .none
  | some u => exact .some (h u rfl)

theorem rel_mapVals {R : T → T → Prop} {g : T → T} {map : Option (Obj T)}
    (h : ∀ v ∈ valuesOf map, R v (g v)) :
    Option.Rel (SameEntries R) map (map.map (Obj.mapVals g)) := by
  refine rel_map fun m hm => sameEntries_mapVals fun e he => h _ ?_
  obtain rfl := Option.mem_def.mp hm
  exact List.mem_map_of_mem he

/-- A leg's references after the cascade, whatever the kind of leg. -/
theorem refs_remapped (f : PolicyField) (from' : Str) (to' : Option Str) (leg : PolicyRefs) :
    remapped f from' to' leg =
      if leg.get f = some from' then leg.set f to' else leg := by
  simp only [remapped, remapRef, Leg.refs, id]
  by_cases h : leg.get f = some from'
  · cases to' with
    | some b => simp [h, Leg.withRefs]
    | none =>
        simp only [h, ne_eq, not_true_eq_false, if_false, if_true, Option.getD_some]
        split <;> rfl
  · simp [h]

theorem remapped_actor (f : PolicyField) (from' : Str) (to' : Option Str) (t : ActorTarget ν) :
    remapped f from' to' t =
      { toPolicyRefs := remapped f from' to' t.toPolicyRefs
        circuitBreakerScope :=
          if f = .circuitBreaker ∧ t.circuitBreaker = some from' ∧ to' = none then none
          else t.circuitBreakerScope
        circuitBreakerCacheSize :=
          if f = .circuitBreaker ∧ t.circuitBreaker = some from' ∧ to' = none then none
          else t.circuitBreakerCacheSize } := by
  rw [refs_remapped]
  simp only [remapped, remapRef, Leg.refs]
  by_cases h : t.toPolicyRefs.get f = some from'
  · cases to' with
    | some b => simp [h, Leg.withRefs]
    | none =>
        simp only [h, ne_eq, not_true_eq_false, if_false, if_true, Option.getD_some, and_true]
        by_cases hf : f = .circuitBreaker
        · subst hf
          have hcb : t.circuitBreaker = some from' := h
          simp [hcb, Leg.withRefs, Leg.withoutScope]
        · simp [hf, Leg.withRefs]
  · have hcb : ¬ (f = .circuitBreaker ∧ t.circuitBreaker = some from' ∧ to' = none) := by
      rintro ⟨rfl, hcb, _⟩
      exact h hcb
    simp [h, hcb]

/-- The references after a rename find what they found. -/
theorem keepsRefs_remapped (hproto : NoProto s)
    (hfresh : FreshName (s.config.spec.policies.map f) from' to') {leg : PolicyRefs}
    (href : ∀ g n, leg.get g = some n → n ∈ (s.config.spec.policies.map g).keys) :
    KeepsRefs s.config.spec.policies
      (s.config.spec.policies.setMap f (renamedKey (s.config.spec.policies.map f) from' to')) leg
      (remapped f from' (some to') leg) := by
  intro g
  rw [refs_remapped]
  by_cases hg : g = f
  · subst hg
    simp only [Policies.resolve, Policies.map_setMap]
    cases hn : leg.get g with
    | none => simp [hn]
    | some n =>
        by_cases hnf : n = from'
        · simp [hnf, get_renamedKey (hproto.policies g) hfresh]
        · have hnt : n ≠ to' := fun h => hfresh.unused (h ▸ href g n hn)
          simp [hnf, hn, get_renamedKey (hproto.policies g) hfresh, hnt]
  · have hget :
        (if leg.get f = some from' then leg.set f (some to') else leg).get g = leg.get g := by
      split <;> simp [hg]
    simp only [Policies.resolve, hget, Policies.map_setMap_of_ne _ _ hg, and_self]

theorem clearsRefs_remapped (f : PolicyField) (name : Str) (leg : PolicyRefs) :
    ClearsRefs f name leg (remapped f name none leg) := by
  intro g
  rw [refs_remapped]
  by_cases h : leg.get f = some name
  · by_cases hg : g = f
    · simp [h, hg]
    · simp [h, hg]
  · have hg : ¬ (g = f ∧ leg.get g = some name) := fun hg => h (hg.1 ▸ hg.2)
    simp [h, hg]

theorem sameRest_setSpec (s : ResiliencyState ν) (f : PolicyField) (m : Obj (PolicyOf ν f))
    (t : Targets ν) : SameRest f s (s.setSpec (s.config.spec.policies.setMap f m) t) :=
  ⟨fun _ hg => Policies.map_setMap_of_ne _ _ hg, rfl, rfl⟩

theorem renamed_reducer (hproto : NoProto s) (hrefs : RefsExist s)
    (hfresh : FreshName (s.config.spec.policies.map f) from' to') :
    Renamed f from' to' s (reducer s (renameAction f from' to')) := by
  rw [reducer_renameAction, remapPolicyRefs_eq hproto]
  refine ⟨rel_mapVals fun leg hl => ?_, rel_mapVals fun t ht => ?_, rel_mapVals fun t ht => ?_,
    fun n => ?_, ?_, sameRest_setSpec s f _ _⟩
  · refine keepsRefs_remapped hproto hfresh (hrefs leg ?_)
    exact List.mem_append_left _ (List.mem_append_left _ hl)
  · rw [remapped_actor]
    refine ⟨keepsRefs_remapped hproto hfresh (hrefs t.toPolicyRefs ?_), by simp, by simp⟩
    exact List.mem_append_left _ (List.mem_append_right _ (List.mem_map_of_mem ht))
  · have hleg : ∀ leg ∈ t.legs, leg ∈ s.config.spec.targets.refs := fun leg hl =>
      List.mem_append_right _ (List.mem_flatMap.mpr ⟨t, ht, hl⟩)
    constructor
    · refine rel_map fun leg hl => keepsRefs_remapped hproto hfresh (hrefs leg (hleg leg ?_))
      exact List.mem_append_left _ (Option.mem_toList.mpr hl)
    · refine rel_map fun leg hl => keepsRefs_remapped hproto hfresh (hrefs leg (hleg leg ?_))
      exact List.mem_append_right _ (Option.mem_toList.mpr hl)
  · simp only [ResiliencyState.setSpec, Policies.map_setMap]
    exact get_renamedKey (hproto.policies f) hfresh n
  · simp only [ResiliencyState.setSpec, Policies.map_setMap]
    exact filter_renamedKey (hproto.policies f) hfresh

theorem removed_reducer (hproto : NoProto s) (f : PolicyField) (name : Str) :
    Removed f name s (reducer s (removeAction f name)) := by
  rw [reducer_removeAction, remapPolicyRefs_eq hproto]
  refine ⟨rel_mapVals fun leg _ => clearsRefs_remapped f name leg, rel_mapVals fun t _ => ?_,
    rel_mapVals fun t _ => ?_, ?_, sameRest_setSpec s f _ _⟩
  · rw [remapped_actor]
    refine ⟨clearsRefs_remapped f name t.toPolicyRefs, ?_⟩
    simp only [and_true]
    split <;> rfl
  · exact ⟨rel_map fun leg _ => clearsRefs_remapped f name leg,
      rel_map fun leg _ => clearsRefs_remapped f name leg⟩
  · simp only [ResiliencyState.setSpec, Policies.map_setMap]
    rfl

theorem remapped_back {leg : PolicyRefs} (h : leg.get f ≠ some to') :
    remapped f to' (some from') (remapped f from' (some to') leg) = leg := by
  rw [refs_remapped, refs_remapped]
  by_cases hf : leg.get f = some from'
  · have hset : (leg.set f (some to')).get f = some to' := by simp
    rw [if_pos hf, if_pos hset, PolicyRefs.set_set, ← hf, PolicyRefs.set_get]
  · simp [hf, h]

theorem remapped_actor_back {t : ActorTarget ν} (h : t.toPolicyRefs.get f ≠ some to') :
    remapped f to' (some from') (remapped f from' (some to') t) = t := by
  rw [remapped_actor, remapped_actor, remapped_back h]
  simp

theorem noProto_rename (hproto : NoProto s)
    (hfresh : FreshName (s.config.spec.policies.map f) from' to') :
    NoProto (reducer s (renameAction f from' to')) := by
  rw [reducer_renameAction, remapPolicyRefs_eq hproto]
  have hkeys : ∀ {T : Type} {map : Option (Obj T)} {g : T → T},
      (∀ m ∈ map, Obj.protoName ∉ m.keys) →
        ∀ m ∈ map.map (Obj.mapVals g), Obj.protoName ∉ m.keys := by
    intro T map g h m hm
    obtain ⟨m₀, hm₀, rfl⟩ := Option.mem_map.mp hm
    rw [Obj.keys_mapVals]
    exact h m₀ hm₀
  refine ⟨fun g => ?_, hkeys hproto.apps, hkeys hproto.actors, hkeys hproto.components⟩
  simp only [ResiliencyState.setSpec]
  by_cases hg : g = f
  · subst hg
    rw [Policies.map_setMap, ← Obj.get_isSome_iff, get_renamedKey (hproto.policies g) hfresh]
    have hold : Obj.protoName ≠ from' := fun h => hproto.policies g (h ▸ hfresh.old)
    rw [if_neg (Ne.symm hfresh.proto), if_neg hold, Obj.get_isSome_iff]
    exact hproto.policies g
  · rw [Policies.map_setMap_of_ne _ _ hg]
    exact hproto.policies g

theorem map_mapVals_back {g h : T → T} {map : Option (Obj T)}
    (hback : ∀ v ∈ valuesOf map, h (g v) = v) :
    (map.map (Obj.mapVals g)).map (Obj.mapVals h) = map := by
  cases map with
  | none => rfl
  | some m =>
      simp only [Option.map_some, Obj.mapVals_mapVals]
      refine congrArg some (Obj.mapVals_eq_self fun e he => hback _ ?_)
      exact List.mem_map_of_mem he

theorem option_map_back {U : Type} {g h : U → U} {o : Option U} (hback : ∀ u ∈ o, h (g u) = u) :
    (o.map g).map h = o := by
  cases o with
  | none => rfl
  | some u => exact congrArg some (hback u rfl)

/-- **Renaming back** gives the state again. -/
theorem rename_back (hproto : NoProto s) (hrefs : RefsExist s)
    (hfresh : FreshName (s.config.spec.policies.map f) from' to')
    (hplace : KeepsPlace (s.config.spec.policies.map f) from' to') :
    reducer (reducer s (renameAction f from' to')) (renameAction f to' from') = s := by
  have hne : ∀ leg ∈ s.config.spec.targets.refs, leg.get f ≠ some to' := fun leg hl h =>
    hfresh.unused (hrefs leg hl f to' h)
  rw [reducer_renameAction, remapPolicyRefs_eq (noProto_rename hproto hfresh),
    reducer_renameAction, remapPolicyRefs_eq hproto]
  simp only [ResiliencyState.setSpec, Policies.map_setMap, Policies.setMap_setMap,
    renamedKey_back (hproto.policies f) hfresh hplace, Policies.setMap_map]
  rw [map_mapVals_back fun leg hl => remapped_back (hne leg ?_),
    map_mapVals_back fun t ht => remapped_actor_back (hne t.toPolicyRefs ?_),
    map_mapVals_back fun t ht => ?_]
  · have hleg : ∀ leg ∈ t.legs, leg.get f ≠ some to' := fun leg hl =>
      hne leg (List.mem_append_right _ (List.mem_flatMap.mpr ⟨t, ht, hl⟩))
    simp only [remappedComponent]
    rw [option_map_back fun leg hl => remapped_back (hleg leg ?_),
      option_map_back fun leg hl => remapped_back (hleg leg ?_)]
    · exact List.mem_append_right _ (Option.mem_toList.mpr hl)
    · exact List.mem_append_left _ (Option.mem_toList.mpr hl)
  · exact List.mem_append_left _ (List.mem_append_right _ (List.mem_map_of_mem ht))
  · exact List.mem_append_left _ (List.mem_append_left _ hl)

end Frame

/-- Two timeouts, and an app that refers to the second. -/
def twoTimeouts : ResiliencyState Nat :=
  [.upsertTimeout "a".toList "1s".toList, .upsertTimeout "b".toList "2s".toList,
    .upsertApp "w".toList ⟨some "b".toList, none, none⟩].foldl reducer initialState

theorem noProto_twoTimeouts : NoProto twoTimeouts := by
  refine ⟨fun f => ?_, ?_, ?_, ?_⟩
  · cases f <;> decide
  all_goals decide

theorem refsExist_twoTimeouts : RefsExist twoTimeouts := by
  have hall : ∀ leg ∈ twoTimeouts.config.spec.targets.refs,
      leg = ⟨some "b".toList, none, none⟩ := by decide
  intro leg hl f name hn
  rw [hall leg hl] at hn
  cases f with
  | timeout =>
      obtain rfl := Option.some.inj hn
      decide
  | retry => cases hn
  | circuitBreaker => cases hn

/-- **What a rename and a removal keep**, from any state whose references all name existing
    policies and in which nothing is named `__proto__`. -/
theorem rename_remove_policies (s : ResiliencyState ν) (hproto : NoProto s) (hrefs : RefsExist s)
    (f : PolicyField) (from' : Str) (hold : from' ∈ (s.config.spec.policies.map f).keys) :
    (∀ to', to' ∉ (s.config.spec.policies.map f).keys → to' ≠ Obj.protoName →
      Renamed f from' to' s (reducer s (renameAction f from' to')) ∧
      (KeepsPlace (s.config.spec.policies.map f) from' to' →
        ((reducer s (renameAction f from' to')).config.spec.policies.map f).entries =
            renamedEntries (s.config.spec.policies.map f).entries from' to' ∧
          reducer (reducer s (renameAction f from' to')) (renameAction f to' from') = s)) ∧
    Removed f from' s (reducer s (removeAction f from')) := by
  refine ⟨fun to' hunused hne => ?_, removed_reducer hproto f from'⟩
  have hfresh : FreshName (s.config.spec.policies.map f) from' to' := ⟨hold, hunused, hne⟩
  refine ⟨renamed_reducer hproto hrefs hfresh, fun hplace => ⟨?_, ?_⟩⟩
  · rw [reducer_renameAction]
    simp only [ResiliencyState.setSpec, Policies.map_setMap]
    exact entries_renamedKey (hproto.policies f) hfresh hplace
  · exact rename_back hproto hrefs hfresh hplace

theorem rename_remove_policies_twoTimeouts :
    Renamed .timeout "b".toList "c".toList twoTimeouts (reducer twoTimeouts (.renameTimeout "b".toList "c".toList)) ∧
      reducer (reducer twoTimeouts (.renameTimeout "b".toList "c".toList)) (.renameTimeout "c".toList "b".toList) =
        twoTimeouts ∧
      Removed .timeout "b".toList twoTimeouts (reducer twoTimeouts (.removeTimeout "b".toList)) := by
  have h := rename_remove_policies twoTimeouts noProto_twoTimeouts refsExist_twoTimeouts .timeout
    "b".toList (by decide)
  obtain ⟨hren, hback⟩ := h.1 "c".toList (by decide) (by decide)
  refine ⟨hren, (hback ?_).2, h.2⟩
  exact keepsPlace_of_not_index _ (by decide) (by decide) (by decide)

/-- A timeout renamed to an array index moves to the front, and renaming it back does not put it
    back; renamed to `__proto__`, which is no name of a policy either, it is lost. -/
theorem rename_moves_and_drops :
    RefsExist twoTimeouts ∧ twoTimeouts.config.spec.policies.timeouts.keys = ["a".toList, "b".toList] ∧
      (reducer twoTimeouts (.renameTimeout "b".toList "1".toList)).config.spec.policies.timeouts.keys =
        ["1".toList, "a".toList] ∧
      (reducer (reducer twoTimeouts (.renameTimeout "b".toList "1".toList))
          (.renameTimeout "1".toList "b".toList)).config.spec.policies.timeouts.keys = ["b".toList, "a".toList] ∧
      (reducer twoTimeouts
          (.renameTimeout "b".toList Obj.protoName)).config.spec.policies.timeouts.keys = ["a".toList] :=
  ⟨refsExist_twoTimeouts, by decide, by decide, by decide, by decide⟩

end DevDashboard.Web.Resiliency
