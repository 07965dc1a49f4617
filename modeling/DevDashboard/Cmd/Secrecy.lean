/-
  File:      DevDashboard/Cmd/Secrecy.lean
  Subject:   WHERE THE VALUES OF SECRETS GO (`cmd/reconciler.go` over `pkg/secrets`).

  Two runs of reconciles and store calls are compared that differ in the values of secrets only,
  step by step. A reference on a property that `ConnInfo` or the election reads would be shown;
  there must be none (`Unread`).

  * `next_alike`, `run_alike` -- in every run, reconciler and registry stay alike;
  * `stores_shown_eq`, `identityFor_eq`, `storeState_unreachable_eq` -- what is shown is the same;
  * `values_only_revealed` -- so nothing but `RevealSecret` tells the two runs apart.
-/
import DevDashboard.Cmd.Stores
import DevDashboard.Resources.Service

namespace DevDashboard.Cmd

open Lib StateStore Workflow ConnRegistry Secrets

/-! ## 1. Two runs -/

structure Plan.Alike (p p' : Plan) : Prop where
  elected : p.elected.Rel StoreComponent.Alike p'.elected
  provided : p.provided = p'.provided

inductive Round.Alike : Round → Round → Prop where
  | idle : Round.Alike .idle .idle
  | upserting {todo todo' : List StoreComponent} {plan plan' : Plan}
      (h : List.Forall₂ StoreComponent.Alike todo todo') (hp : plan.Alike plan') :
      Round.Alike (.upserting todo plan) (.upserting todo' plan')
  | providing (todo : List Str) {plan plan' : Plan} (hp : plan.Alike plan') :
      Round.Alike (.providing todo plan) (.providing todo plan')

inductive CallPc.Alike : CallPc → CallPc → Prop where
  | idle : CallPc.Alike .idle .idle
  | deleteFound (id : Str) {comp comp' : Option StoreComponent}
      (h : comp.Rel StoreComponent.Alike comp') :
      CallPc.Alike (.deleteFound id comp) (.deleteFound id comp')
  | deletePassed (id : Str) (seen seen' : Option StoreComponent) :
      CallPc.Alike (.deletePassed id seen) (.deletePassed id seen')
  | updating (e : ConnEntry) : CallPc.Alike (.updating e) (.updating e)

/-- Two states of the reconciler, its registry and the calls on it. -/
structure Sys.Alike {B : Type} (σ σ' : Sys B) : Prop where
  registry : σ.registry = σ'.registry
  active : σ.active.Rel StoreComponent.Alike σ'.active
  closed : σ.closed = σ'.closed
  round : σ.round.Alike σ'.round
  calls : ∀ c, (σ.calls c).Alike (σ'.calls c)

/-- What a step reads from outside. -/
def Act.outside : Act → Option Outside
  | .reconcile _ out => some out
  | .deleteLookup _ _ out => some out
  | .deleteCheck _ out => some out
  | _ => none

/-- Two runs take the same step. -/
inductive Act.Alike : Act → Act → Prop where
  | same {a : Act} (h : a.outside = none) : Act.Alike a a
  | reconcile (apps : List AppInfo) {out out' : Outside} (h : out.Alike out') :
      Act.Alike (.reconcile apps out) (.reconcile apps out')
  | deleteLookup (c : Nat) (id : Str) {out out' : Outside} (h : out.Alike out') :
      Act.Alike (.deleteLookup c id out) (.deleteLookup c id out')
  | deleteCheck (c : Nat) {out out' : Outside} (h : out.Alike out') :
      Act.Alike (.deleteCheck c out) (.deleteCheck c out')

section Runs

variable {B : Type} {hash : Str → Str} {yaml : Yaml B} {W : World} {σ σ' : Sys B}

theorem planFor_alike {out out' : Outside} (hW : Unread W) (apps : List AppInfo) :
    List.Forall₂ StoreComponent.Alike (planFor W apps out).1 (planFor W apps out').1 ∧
      (planFor W apps out).2.Alike (planFor W apps out').2 := by
  have hcomps : List.Forall₂ StoreComponent.Alike (planFor W apps out).1
      (planFor W apps out').1 := by
    refine List.forall₂_map_left_iff.mpr (List.forall₂_map_right_iff.mpr ?_)
    refine List.forall₂_same.mpr fun c hc => ?_
    exact resolved_alike (hW _ c hc)
  exact ⟨hcomps, elect_alike hcomps, provided_eq hcomps⟩

theorem refused_eq {out out' : Outside} (hout : out.Alike out')
    {comp comp' active active' : Option StoreComponent}
    (hcomp : comp.Rel StoreComponent.Alike comp') (hactive : active.Rel StoreComponent.Alike active') :
    refused W out comp active = refused W out' comp' active' := by
  cases hcomp with
  | none => rfl
  | some hc =>
      cases hactive with
      | none => rfl
      | some hs =>
          simp only [refused, hc.identity_eq, (@translate_alike W _ _ hout _ _ hs).identity_eq]

theorem Sys.Alike.onRegistry (h : σ.Alike σ') (op : RegOp) (now : Time) :
    (σ.onRegistry hash yaml op now).Alike (σ'.onRegistry hash yaml op now) := by
  refine ⟨?_, h.active, h.closed, h.round, h.calls⟩
  show (σ.registry.apply hash yaml op (calm now)).2 = (σ'.registry.apply hash yaml op (calm now)).2
  rw [h.registry]

theorem Sys.Alike.setRound (h : σ.Alike σ') {r r' : Round} (hr : r.Alike r') :
    (σ.setRound r).Alike (σ'.setRound r') := ⟨h.registry, h.active, h.closed, hr, h.calls⟩

theorem Sys.Alike.setCall (h : σ.Alike σ') (c : Nat) {pc pc' : CallPc} (hpc : pc.Alike pc') :
    (σ.setCall c pc).Alike (σ'.setCall c pc') := by
  refine ⟨h.registry, h.active, h.closed, h.round, fun i => ?_⟩
  show (Function.update σ.calls c pc i).Alike (Function.update σ'.calls c pc' i)
  by_cases hi : i = c
  · subst hi
    rw [Function.update_self, Function.update_self]
    exact hpc
  · rw [Function.update_of_ne hi, Function.update_of_ne hi]
    exact h.calls i

theorem autoRef_eq {c c' : StoreComponent} (h : StoreComponent.Alike c c') :
    autoRef c = autoRef c' := by
  unfold autoRef
  rw [h.name, h.type, h.path]

theorem reconcile_alike (h : σ.Alike σ') (hW : Unread W) (apps : List AppInfo) (out out' : Outside) :
    (σ.next hash yaml W (.reconcile apps out)).Alike
      (σ'.next hash yaml W (.reconcile apps out')) := by
  have hr := h.round
  simp only [Sys.next, ← h.closed]
  generalize σ.round = r, σ'.round = r' at hr ⊢
  cases hr with
  | idle =>
      obtain ⟨hcomps, hplan⟩ := @planFor_alike W out out' hW apps
      simp only
      split
      · exact h
      · exact h.setRound (.upserting hcomps hplan)
  | upserting ht hp => exact h
  | providing todo hp => exact h

theorem upsert_alike (h : σ.Alike σ') (now : Time) :
    (σ.next hash yaml W (.upsert now)).Alike (σ'.next hash yaml W (.upsert now)) := by
  have hr := h.round
  simp only [Sys.next]
  generalize σ.round = r, σ'.round = r' at hr ⊢
  cases hr with
  | idle => exact h
  | upserting ht hp =>
      cases ht with
      | nil => exact h
      | cons hc hcs =>
          simp only [autoRef_eq hc]
          exact (h.onRegistry _ now).setRound (.upserting hcs hp)
  | providing todo hp => exact h

theorem undismissActive_alike (h : σ.Alike σ') (now : Time) :
    (σ.next hash yaml W (.undismissActive now)).Alike
      (σ'.next hash yaml W (.undismissActive now)) := by
  have hr := h.round
  simp only [Sys.next]
  generalize σ.round = r, σ'.round = r' at hr ⊢
  cases hr with
  | idle => exact h
  | @upserting todo todo' plan plan' ht hp =>
      cases ht with
      | nil =>
          have hround : (Round.providing plan.provided plan).Alike
              (.providing plan'.provided plan') := hp.provided ▸ .providing _ hp
          have helected := hp.elected
          simp only
          generalize plan.elected = s, plan'.elected = s' at helected ⊢
          cases helected with
          | none => exact h.setRound hround
          | some hs =>
              simp only [← hs.path]
              split
              · exact h.setRound hround
              · exact (h.onRegistry _ now).setRound hround
      | cons hc hcs => exact h
  | providing todo hp => exact h

theorem undismissProvided_alike (h : σ.Alike σ') (now : Time) :
    (σ.next hash yaml W (.undismissProvided now)).Alike
      (σ'.next hash yaml W (.undismissProvided now)) := by
  have hr := h.round
  simp only [Sys.next]
  generalize σ.round = r, σ'.round = r' at hr ⊢
  cases hr with
  | idle => exact h
  | upserting ht hp => exact h
  | providing todo hp =>
      cases todo with
      | nil => exact h
      | cons p ps => exact (h.onRegistry _ now).setRound (.providing ps hp)

theorem publish_alike (h : σ.Alike σ') :
    (σ.next hash yaml W .publish).Alike (σ'.next hash yaml W .publish) := by
  have hr := h.round
  simp only [Sys.next, ← h.closed]
  generalize σ.round = r, σ'.round = r' at hr ⊢
  cases hr with
  | idle => exact h
  | upserting ht hp => exact h
  | providing todo hp =>
      cases todo with
      | nil =>
          simp only
          split
          · exact h.setRound .idle
          · exact ⟨h.registry, hp.elected, rfl, .idle, h.calls⟩
      | cons p ps => exact h

theorem updateLookup_alike (h : σ.Alike σ') (c : Nat) (id name : Str) (type : StoreType)
    (metadata : Metadata) :
    (σ.next hash yaml W (.updateLookup c id name type metadata)).Alike
      (σ'.next hash yaml W (.updateLookup c id name type metadata)) := by
  have hc := h.calls c
  simp only [Sys.next]
  generalize σ.calls c = pc, σ'.calls c = pc' at hc ⊢
  cases hc with
  | idle => exact h.setCall c (.updating _)
  | deleteFound i hcomp => exact h
  | deletePassed i seen seen' => exact h
  | updating e => exact h

theorem updateApply_alike (h : σ.Alike σ') (c : Nat) (now : Time) :
    (σ.next hash yaml W (.updateApply c now)).Alike
      (σ'.next hash yaml W (.updateApply c now)) := by
  have hc := h.calls c
  simp only [Sys.next]
  generalize σ.calls c = pc, σ'.calls c = pc' at hc ⊢
  cases hc with
  | idle => exact h
  | deleteFound i hcomp => exact h
  | deletePassed i seen seen' => exact h
  | updating e => exact (h.onRegistry _ now).setCall c .idle

theorem deleteApply_alike (h : σ.Alike σ') (c : Nat) (now : Time) :
    (σ.next hash yaml W (.deleteApply c now)).Alike
      (σ'.next hash yaml W (.deleteApply c now)) := by
  have hc := h.calls c
  simp only [Sys.next]
  generalize σ.calls c = pc, σ'.calls c = pc' at hc ⊢
  cases hc with
  | idle => exact h
  | deleteFound i hcomp => exact h
  | deletePassed i seen seen' => exact (h.onRegistry _ now).setCall c .idle
  | updating e => exact h

theorem deleteLookup_alike (h : σ.Alike σ') (hW : Unread W) (c : Nat) (id : Str)
    {out out' : Outside} (hout : out.Alike out') :
    (σ.next hash yaml W (.deleteLookup c id out)).Alike
      (σ'.next hash yaml W (.deleteLookup c id out')) := by
  have hc := h.calls c
  simp only [Sys.next, ← h.registry]
  generalize σ.calls c = pc, σ'.calls c = pc' at hc ⊢
  cases hc with
  | idle => exact h.setCall c (.deleteFound id (componentFor_alike hout hW _ id))
  | deleteFound i hcomp => exact h
  | deletePassed i seen seen' => exact h
  | updating e => exact h

theorem deleteCheck_alike (h : σ.Alike σ') (c : Nat) {out out' : Outside} (hout : out.Alike out') :
    (σ.next hash yaml W (.deleteCheck c out)).Alike
      (σ'.next hash yaml W (.deleteCheck c out')) := by
  have hc := h.calls c
  simp only [Sys.next]
  generalize σ.calls c = pc, σ'.calls c = pc' at hc ⊢
  cases hc with
  | idle => exact h
  | deleteFound i hcomp =>
      simp only [refused_eq hout hcomp h.active]
      split
      · exact h.setCall c .idle
      · exact h.setCall c (.deletePassed i _ _)
  | deletePassed i seen seen' => exact h
  | updating e => exact h

/-- **One step of both runs.** -/
theorem next_alike (hW : Unread W) {a a' : Act} (ha : a.Alike a') (h : σ.Alike σ') :
    (σ.next hash yaml W a).Alike (σ'.next hash yaml W a') := by
  cases ha with
  | reconcile apps hout => exact reconcile_alike h hW apps _ _
  | deleteLookup c id hout => exact deleteLookup_alike h hW c id hout
  | deleteCheck c hout => exact deleteCheck_alike h c hout
  | same ha =>
      cases a with
      | reconcile apps out => cases ha
      | upsert now => exact upsert_alike h now
      | undismissActive now => exact undismissActive_alike h now
      | undismissProvided now => exact undismissProvided_alike h now
      | publish => exact publish_alike h
      | shutdown => exact ⟨h.registry, h.active, rfl, h.round, h.calls⟩
      | addStore name type metadata now => exact h.onRegistry _ now
      | updateLookup c id name type metadata => exact updateLookup_alike h c id name type metadata
      | updateApply c now => exact updateApply_alike h c now
      | deleteLookup c id out => cases ha
      | deleteCheck c out => cases ha
      | deleteApply c now => exact deleteApply_alike h c now

/-- **Two whole runs.** -/
theorem run_alike (hW : Unread W) {acts acts' : List Act} (ha : List.Forall₂ Act.Alike acts acts')
    (h : σ.Alike σ') :
    (acts.foldl (Sys.next hash yaml W) σ).Alike (acts'.foldl (Sys.next hash yaml W) σ') := by
  induction ha generalizing σ σ' with
  | nil => exact h
  | cons ha _ ih => exact ih (next_alike hW ha h)

theorem start_alike (r : ConnRegistry B) : (Sys.start r).Alike (Sys.start r) :=
  ⟨rfl, .none, rfl, .idle, fun _ => .idle⟩

end Runs

/-! ## 2. What is shown -/

section Equal

variable {W : World} {out out' : Outside} {entries : List ConnEntry}
  {active active' : Option StoreComponent}

theorem activeID_eq (hout : out.Alike out') (hactive : active.Rel StoreComponent.Alike active') :
    activeID W out active = activeID W out' active' := by
  cases hactive with
  | none => rfl
  | some h => exact (@translate_alike W _ _ hout _ _ h).identity_eq _

theorem sharedDetection_cases : sharedDetection W entries = none ∨
    ∃ paths, sharedDetection W entries = some (detect W.reader W.fs paths) := by
  unfold sharedDetection
  split
  · exact .inl rfl
  · exact .inr ⟨_, rfl⟩

/-- **The page of the stores.** -/
theorem stores_shown_eq (hout : out.Alike out') (hW : Unread W)
    (hactive : active.Rel StoreComponent.Alike active') :
    stores W out entries active = stores W out' entries active' := by
  unfold stores
  refine congrArg sortStores (List.map_congr_left fun e _ => ?_)
  obtain ⟨hc, hissue⟩ := componentForEntry_alike hout hW e (@sharedDetection_cases W entries)
  unfold storeInfo
  simp only [hc.identity_eq, hc.connInfo_eq, hissue, activeID_eq hout hactive]

/-- **The identities of the connections.** -/
theorem identityFor_eq (hout : out.Alike out') (hW : Unread W)
    (hactive : active.Rel StoreComponent.Alike active') (id : Str) :
    identityFor W out entries active id = identityFor W out' entries active' id := by
  have hc := resolveComponent_alike hout hW entries hactive id
  unfold identityFor
  generalize resolveComponent (W.sources out) entries active id = o,
    resolveComponent (W.sources out') entries active' id = o' at hc
  cases hc with
  | none => rfl
  | some hc =>
      cases hc with
      | none => rfl
      | some hc => exact congrArg some (hc.identity_eq _)

/-- What is found behind an id, of a store that neither run can open. -/
theorem storeState_unreachable_eq (hout : out.Alike out') (hW : Unread W)
    (hactive : active.Rel StoreComponent.Alike active') {opens opens' : StoreComponent → Bool}
    {id name conn name' conn' : Str}
    (h : storeState W out entries active opens id = some (.unreachable name conn))
    (h' : storeState W out' entries active' opens' id = some (.unreachable name' conn')) :
    name = name' ∧ conn = conn' := by
  have hc := resolveComponent_alike hout hW entries hactive id
  unfold storeState at h h'
  generalize resolveComponent (W.sources out) entries active id = o,
    resolveComponent (W.sources out') entries active' id = o' at hc h h'
  cases hc with
  | none => cases h
  | some hc =>
      cases hc with
      | none => cases h
      | some hc =>
          simp only [Option.map_some] at h h'
          split at h
          · cases h
          · split at h'
            · cases h'
            · rw [hc.name, hc.connInfo_eq] at h
              cases h
              cases h'
              exact ⟨rfl, rfl⟩

end Equal

/-- Which store a message of `ServiceFor` is about. -/
theorem serviceText_eq_some {rc : Reconciler} {id m : Str} (h : serviceText rc id = some m) :
    ∃ name conn, rc.stores id = some (.unreachable name conn) ∧
      m = LoadError.text (.storeUnreachable name conn) := by
  unfold serviceText serviceFor baseServiceFor at h
  cases hst : rc.stores id with
  | none => simp [hst] at h
  | some st =>
      cases st with
      | degraded => simp [hst] at h
      | unreachable name conn =>
          simp only [hst, Option.bind_some, Option.some.injEq] at h
          exact ⟨name, conn, rfl, h.symm⟩
      | opened => simp [hst] at h

/-- Which store a message of `StateFor` is about. -/
theorem stateText_eq_some {rc : Reconciler} {id m : Str} (h : stateText rc id = some m) :
    ∃ name conn, rc.stores id = some (.unreachable name conn) ∧
      m = Server.stateErrorText (.storeUnreachable name conn) := by
  unfold stateText at h
  obtain ⟨st, hst, h⟩ := Option.bind_eq_some_iff.mp h
  split at h
  · rename_i name conn
    exact ⟨name, conn, hst, (Option.some.inj h).symm⟩
  · cases h

/-! ## 3. Two backends -/

/-- What a call finds outside besides the secrets: the paths of the secrets service, the compose
    projects, and the orders of its ranges. -/
structure Scene where
  paths : List Str
  env : ComposeEnv
  ranges : Ranges

/-- A step of a run, over whatever backend. -/
inductive Event where
  | reconcile (apps : List AppInfo) (scene : Scene)
  | deleteLookup (c : Nat) (id : Str) (scene : Scene)
  | deleteCheck (c : Nat) (scene : Scene)
  /-- a step that reads nothing from outside -/
  | plain (a : Act) (h : a.outside = none)

section Backends

variable (site : Site) (parse : Str → Option NetURL) (secrets : Option Backend)

/-- `rc.secretsSvc` and `rc.composeEnv`. -/
def Scene.over (scene : Scene) : Outside where
  secretsSvc := secrets.map fun b storeName kind name key =>
    (resolve site b scene.paths storeName ⟨some kind, name, key⟩).toSecretResult
  translated := translateIn parse site.fs.cwd scene.env scene.ranges

def Event.over : Event → Act
  | .reconcile apps scene => .reconcile apps (scene.over site parse secrets)
  | .deleteLookup c id scene => .deleteLookup c id (scene.over site parse secrets)
  | .deleteCheck c scene => .deleteCheck c (scene.over site parse secrets)
  | .plain a _ => a

/-- The state after a run over a backend. -/
def runOver {B : Type} (hash : Str → Str) (yaml : Yaml B) (W : World) (r : ConnRegistry B)
    (events : List Event) : Sys B :=
  (events.map (Event.over site parse secrets)).foldl (Sys.next hash yaml W) (Sys.start r)

variable {site parse secrets} {secrets' : Option Backend}

theorem Scene.over_alike (h : secrets.Rel SameButValues secrets') (scene : Scene) :
    (scene.over site parse secrets).Alike (scene.over site parse secrets') := by
  refine ⟨?_, parse, site.fs.cwd, scene.env, scene.ranges, rfl, rfl⟩
  cases h with
  | none => exact .none
  | some h =>
      refine .some fun storeName kind name key => ?_
      have hres := @resolve_alike site _ _ h scene.paths storeName ⟨some kind, name, key⟩
      exact ⟨hres.status, hres.detail⟩

theorem Event.over_alike (h : secrets.Rel SameButValues secrets') (e : Event) :
    (e.over site parse secrets).Alike (e.over site parse secrets') := by
  cases e with
  | reconcile apps scene => exact .reconcile apps (scene.over_alike h)
  | deleteLookup c id scene => exact .deleteLookup c id (scene.over_alike h)
  | deleteCheck c scene => exact .deleteCheck c (scene.over_alike h)
  | plain a ha => exact .same ha

theorem runOver_alike {B : Type} {hash : Str → Str} {yaml : Yaml B} {W : World} (hW : Unread W)
    (h : secrets.Rel SameButValues secrets') (r : ConnRegistry B) (events : List Event) :
    (runOver site parse secrets hash yaml W r events).Alike
      (runOver site parse secrets' hash yaml W r events) := by
  refine run_alike hW ?_ (start_alike r)
  refine List.forall₂_map_left_iff.mpr (List.forall₂_map_right_iff.mpr ?_)
  exact List.forall₂_same.mpr fun e _ => e.over_alike h

end Backends

/-- **The values of secrets leave through `RevealSecret` only.** Over two backends that differ in
    the values of secrets, `List` and `Get` answer the same; and if no reference is on a property
    that `ConnInfo` or the election reads, then after the same run of reconciles and calls
    `Stores`, the identities of the connections and the messages about unreachable stores are the
    same. -/
theorem values_only_revealed {R B : Type} (hash : Str → Str) (yaml : Yaml B) (site : Site)
    (parse : Str → Option NetURL) {secrets secrets' : Option Backend}
    (h : secrets.Rel SameButValues secrets') :
    (∀ (svc : Resources.Service R) kind idOrName,
      Resources.list svc secrets kind = Resources.list svc secrets' kind ∧
        Resources.get svc secrets kind idOrName = Resources.get svc secrets' kind idOrName) ∧
    ∀ W : World, Unread W → ∀ (r : ConnRegistry B) (events : List Event) (scene : Scene),
      let σ := runOver site parse secrets hash yaml W r events
      let σ' := runOver site parse secrets' hash yaml W r events
      let out := scene.over site parse secrets
      let out' := scene.over site parse secrets'
      stores W out σ.registry.entries σ.active = stores W out' σ'.registry.entries σ'.active ∧
        (∀ id, identityFor W out σ.registry.entries σ.active id =
          identityFor W out' σ'.registry.entries σ'.active id) ∧
        ∀ (rc rc' : Reconciler) (opens opens' : StoreComponent → Bool),
          rc.stores = storeState W out σ.registry.entries σ.active opens →
          rc'.stores = storeState W out' σ'.registry.entries σ'.active opens' →
          ∀ id m m',
            (serviceText rc id = some m → serviceText rc' id = some m' → m = m') ∧
              (stateText rc id = some m → stateText rc' id = some m' → m = m') := by
  refine ⟨fun svc kind idOrName => ⟨Resources.list_eq h kind, Resources.get_eq h kind idOrName⟩, ?_⟩
  intro W hW r events scene σ σ' out out'
  have hσ : σ.Alike σ' := runOver_alike hW h r events
  have hout : out.Alike out' := scene.over_alike h
  rw [← hσ.registry]
  refine ⟨stores_shown_eq hout hW hσ.active, identityFor_eq hout hW hσ.active, ?_⟩
  intro rc rc' opens opens' hrc hrc' id m m'
  refine ⟨fun hm hm' => ?_, fun hm hm' => ?_⟩
  · obtain ⟨name, conn, hs, rfl⟩ := serviceText_eq_some hm
    obtain ⟨name', conn', hs', rfl⟩ := serviceText_eq_some hm'
    rw [hrc] at hs
    rw [hrc'] at hs'
    obtain ⟨rfl, rfl⟩ := storeState_unreachable_eq hout hW hσ.active hs hs'
    rfl
  · obtain ⟨name, conn, hs, rfl⟩ := stateText_eq_some hm
    obtain ⟨name', conn', hs', rfl⟩ := stateText_eq_some hm'
    rw [hrc] at hs
    rw [hrc'] at hs'
    obtain ⟨rfl, rfl⟩ := storeState_unreachable_eq hout hW hσ.active hs hs'
    rfl

/-! ## 4. A password in a secrets file -/

/-- A redis store whose password is a secret. -/
def lockedDoc : Str :=
  document ["auth:", "  secretStore: v", "kind: Component", "metadata:", "  name: a", "spec:",
    "  type: state.redis", "  metadata:", "  - name: redisPassword", "    secretKeyRef:",
    "      name: pw", "      key: pw"]

/-- The secret store that holds it. -/
def vaultDoc : Str :=
  document ["kind: Component", "metadata:", "  name: v", "spec:",
    "  type: secretstores.local.file", "  metadata:", "  - name: secretsFile",
    "    value: /s.json"]

def lockedFile : Str := lockedDoc ++ dashes ++ ['\n'] ++ vaultDoc

def redisPasswordKey : Str := "redisPassword".toList

def pw : Str := "pw".toList

/-- The two documents are told apart by their first letter. -/
def begins (doc : Str) (c : Char) : Bool := decide ((doc.dropWhile (· = '\n')).head? = some c)

def lockedReader : YamlReader where
  rawComponent doc :=
    if begins doc 'a' then
      some ⟨componentKind, "a".toList, StoreType.redis.text, [], [(redisPasswordKey, [])]⟩
    else if begins doc 'k' then
      some ⟨componentKind, "v".toList, typeFile, [], [(secretsFileKey, "/s.json".toList)]⟩
    else none
  refDoc doc :=
    if begins doc 'a' then some ⟨[⟨redisPasswordKey, [], pw, pw⟩], [], "v".toList⟩
    else some ⟨[], [], []⟩

def lockedSite : Site where
  rawComponent := lockedReader.rawComponent
  fs := oneFile lockedFile
  toUpper s := s.map Char.toUpper
  quote s := '"' :: s ++ ['"']

/-- A secrets file that holds one password. -/
def vault (value : Str) : Backend where
  env _ := none
  initFile _ := .ok ⟨fun name => if name = pw then some (Dict.empty.put pw value) else none,
    some (Dict.empty.put pw (Dict.empty.put pw value))⟩
  initEnv _ := .error []

theorem vault_sameButValues {v v' : Str} (h : v ≠ []) (h' : v' ≠ []) :
    SameButValues (vault v) (vault v') := by
  refine ⟨fun _ => rfl, rfl, fun _ => .ok ⟨fun name key => ?_, rfl⟩, fun _ => .error []⟩
  by_cases hname : name = pw
  · simp only [if_pos hname, Option.bind_some]
    by_cases hkey : key = pw
    · rw [hkey, Dict.get_put_self, Dict.get_put_self, SameShape, Option.map_some, Option.map_some,
        List.isEmpty_eq_false_iff.mpr h, List.isEmpty_eq_false_iff.mpr h']
    · rw [Dict.get_put_of_ne _ _ hkey, Dict.get_put_of_ne _ _ hkey]
      rfl
  · simp only [if_neg hname]
    rfl

def lockedWorld : World where
  reader := lockedReader
  fs := oneFile lockedFile
  fixed := ⟨[], sYaml, []⟩
  parseURL _ := none

theorem lockedWorld_unread : Unread lockedWorld := by
  intro paths c hc
  obtain ⟨data, -, hgroup⟩ := mem_detect hc
  have hmem : c ∈ fileComponents lockedReader c.path data := by
    rw [← show _ = fileComponents lockedReader c.path data from hgroup]
    exact List.mem_filter.mpr ⟨hc, by simp⟩
  obtain ⟨doc, -, hdoc⟩ := List.mem_filterMap.mp hmem
  unfold docComponent at hdoc
  by_cases hl : begins doc 'a' = true
  · have hraw : lockedReader.rawComponent doc =
        some ⟨componentKind, "a".toList, StoreType.redis.text, [], [(redisPasswordKey, [])]⟩ :=
      if_pos hl
    have href : lockedReader.refDoc doc =
        some ⟨[⟨redisPasswordKey, [], pw, pw⟩], [], "v".toList⟩ := if_pos hl
    have hrefs : parseRefs lockedReader doc =
        ("v".toList, Dict.empty.put redisPasswordKey ⟨some .secretKeyRef, pw, pw⟩) := by
      unfold parseRefs
      rw [href]
      rfl
    simp only [hraw, hrefs] at hdoc
    rw [if_pos (by decide)] at hdoc
    have hc' := Option.some.inj hdoc
    intro x hx
    rw [← hc'] at hx ⊢
    rw [List.mem_singleton.mp hx]
    show redisPasswordKey ∉ readFields .redis
    decide
  · have hraw : lockedReader.rawComponent doc =
        if begins doc 'k' then
          some ⟨componentKind, "v".toList, typeFile, [], [(secretsFileKey, "/s.json".toList)]⟩
        else none := if_neg hl
    split at hdoc
    · cases hdoc
    · rename_i rc hrc
      -- the other document declares no state store
      have hrc : (if begins doc 'k' then _ else none) = some rc := hraw.symm.trans hrc
      split at hrc
      · cases hrc
        rw [if_neg (by decide)] at hdoc
        cases hdoc
      · cases hrc

def lockedService : Resources.Service Unit where
  files := {
    site := lockedSite
    yaml := lockedReader
    rawResource := fun doc =>
      (lockedReader.rawComponent doc).map fun rc => ⟨rc.kind, rc.name, [], rc.type, rc.version⟩
    endpoint := fun _ => none
    resiliency := fun _ => none
    canonicalPath := id
    hash := id }
  sorting := Resources.insertionSlice
  paths := [sYaml]
  secretPaths := [sYaml]
  extras := []

/-- No compose project. -/
def lockedScene : Scene := ⟨[sYaml], ⟨.empty, .empty⟩, Ranges.sorted⟩

/-- One reconcile. -/
def lockedEvents : List Event :=
  [.reconcile [] lockedScene, .plain (.upsert 2) rfl, .plain (.undismissActive 2) rfl,
    .plain .publish rfl]

/-- The run over a secrets file. -/
def lockedRun (value : Str) : Sys (List ConnEntry) :=
  runOver lockedSite (fun _ => none) (some (vault value)) id plainYaml lockedWorld newRegistry
    lockedEvents

theorem values_only_revealed_password :
    Resources.revealSecret lockedService (some (vault "x".toList)) "a".toList redisPasswordKey =
      .ok "x".toList ∧
    Resources.revealSecret lockedService (some (vault "y".toList)) "a".toList redisPasswordKey =
      .ok "y".toList ∧
    (lockedRun "x".toList).active.map (fun c => c.metadata.get redisPasswordKey) =
      some (some "x".toList) ∧
    (lockedRun "y".toList).active.map (fun c => c.metadata.get redisPasswordKey) =
      some (some "y".toList) ∧
    Resources.list lockedService (some (vault "x".toList)) .component =
      Resources.list lockedService (some (vault "y".toList)) .component ∧
    stores lockedWorld (lockedScene.over lockedSite (fun _ => none) (some (vault "x".toList)))
        (lockedRun "x".toList).registry.entries (lockedRun "x".toList).active =
      stores lockedWorld (lockedScene.over lockedSite (fun _ => none) (some (vault "y".toList)))
        (lockedRun "y".toList).registry.entries (lockedRun "y".toList).active := by
  have h := @vault_sameButValues "x".toList "y".toList (by decide) (by decide)
  obtain ⟨hres, hrun⟩ := @values_only_revealed Unit (List ConnEntry) id plainYaml lockedSite
    (fun _ => none) _ _ (.some h)
  refine ⟨by decide +kernel, by decide +kernel, by decide +kernel, by decide +kernel, ?_, ?_⟩
  · exact (hres lockedService .component []).1
  · have hstores := (hrun lockedWorld lockedWorld_unread newRegistry lockedEvents lockedScene).1
    unfold lockedRun
    exact hstores

end DevDashboard.Cmd
