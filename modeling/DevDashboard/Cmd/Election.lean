/-
  File:      DevDashboard/Cmd/Election.lean
  Subject:   RECONCILES AND STORE CALLS, INTERLEAVED (`cmd/reconciler.go`: `reconcile`,
             `undismissActive`, `undismissAppProvided`, `AddStore`, `UpdateStore`, `DeleteStore`;
             `newStoreRegistry` of `cmd/workflow.go`).

  A reconcile upserts what it detects, un-dismisses the store it elects and then publishes it;
  `DeleteStore` looks its entry up, compares it with the published store and then deletes. Every
  access to the registry or to the published store is one step; any steps of any calls may stand
  between two steps of one. Saves succeed, and the component files stay as they are.

  * `Sys.next` -- the steps;
  * `Rewrites.shown` -- only a deletion of its id hides an entry;
  * `ElectInv` -- what holds of registry, reconcile and calls in every state of a run;
  * `active_visible` -- the published store is never hidden, in every run whose steps are `Safe`.
-/
import DevDashboard.Cmd.Components
import DevDashboard.Cmd.Derive

namespace DevDashboard.Cmd

open Lib StateStore Workflow ConnRegistry

/-! ## 1. The election -/

/-- `pathUnder`. -/
def pathUnder (child : Str) (parents : List Str) : Bool :=
  decide (child ≠ []) && parents.any fun p =>
    decide (normPath child = normPath p) || Str.hasPrefix (normPath child) (normPath p ++ ['/'])

def actorKey : Str :=
  "actorStateStore".toList

def isActor (c : StoreComponent) : Bool :=
  decide (c.metadata.get actorKey = some "true".toList)

def isAppProvided (loaded appPaths : List Str) (c : StoreComponent) : Bool :=
  decide (c.name ∈ loaded) && pathUnder c.path appPaths

/-- The tests of `newStoreRegistry`, in the order of their precedence. -/
def precedence (loaded appPaths : List Str) : List (StoreComponent → Bool) :=
  [fun c => isAppProvided loaded appPaths c && isActor c,
    isAppProvided loaded appPaths,
    fun c => decide (c.name ∈ loaded) && isActor c,
    fun c => decide (c.name ∈ loaded),
    isActor,
    fun _ => true]

/-- The active store of `newStoreRegistry`: the first that passes the first test any passes. -/
def elect (loaded appPaths : List Str) (comps : List StoreComponent) : Option StoreComponent :=
  (precedence loaded appPaths).findSome? fun test => comps.find? test

theorem mem_of_elect {loaded appPaths : List Str} {comps : List StoreComponent}
    {s : StoreComponent} (h : elect loaded appPaths comps = some s) : s ∈ comps := by
  obtain ⟨test, -, htest⟩ := List.exists_of_findSome?_eq_some h
  exact List.mem_of_find?_eq_some htest

/-! ## 2. The system -/

/-- What does not change in a run. -/
structure World where
  reader : YamlReader
  fs : FileSystem
  fixed : Fixed
  parseURL : Str → Option ParsedURL

/-- What is outside at a step: the secrets and the compose projects of that time. -/
structure Outside where
  secretsSvc : Option Secrets
  translated : StoreComponent → Dict Str Str

def World.sources (W : World) (out : Outside) : Sources :=
  ⟨W.reader, W.fs, out.secretsSvc, out.translated⟩

/-- What a reconcile has worked out: the store it elects and the paths of the stores that running
    apps provide. -/
structure Plan where
  elected : Option StoreComponent
  provided : List Str

/-- Where the reconcile is. Only one runs at a time. -/
inductive Round where
  | idle
  /-- `todo`: the components to upsert; none left: `undismissActive` is next -/
  | upserting (todo : List StoreComponent) (plan : Plan)
  /-- `todo`: the paths to un-dismiss; none left: the election is published next -/
  | providing (todo : List Str) (plan : Plan)

/-- Where a store call is. `AddStore` is one step. -/
inductive CallPc where
  | idle
  /-- `DeleteStore` has looked its entry up -/
  | deleteFound (id : Str) (comp : Option StoreComponent)
  /-- it has compared it with the published store, and was not refused -/
  | deletePassed (id : Str) (seen : Option StoreComponent)
  /-- `UpdateStore` has looked the old component up -/
  | updating (e : ConnEntry)
  deriving DecidableEq

structure Sys (B : Type) where
  registry : ConnRegistry B
  /-- the elected store, as it is published -/
  active : Option StoreComponent
  closed : Bool
  round : Round
  calls : Nat → CallPc

/-- The steps. -/
inductive Act where
  | reconcile (apps : List AppInfo) (out : Outside)
  | upsert (now : Time)
  | undismissActive (now : Time)
  | undismissProvided (now : Time)
  | publish
  | shutdown
  | addStore (name : Str) (type : StoreType) (metadata : Metadata) (now : Time)
  | updateLookup (c : Nat) (id name : Str) (type : StoreType) (metadata : Metadata)
  | updateApply (c : Nat) (now : Time)
  | deleteLookup (c : Nat) (id : Str) (out : Outside)
  | deleteCheck (c : Nat) (out : Outside)
  | deleteApply (c : Nat) (now : Time)

/-- `DeleteStore` refuses: the entry was found and has the identity of the published store. -/
def refused (W : World) (out : Outside) (comp active : Option StoreComponent) : Bool :=
  match comp, active with
  | some c, some s =>
      decide (identity W.parseURL (some (connOf c)) =
        identity W.parseURL (some (connOf (translate (W.sources out) s))))
  | _, _ => false

/-- What a reconcile starts from. -/
def planFor (W : World) (apps : List AppInfo) (out : Outside) : List StoreComponent × Plan :=
  let d := derivePaths W.fixed apps
  let comps := (detect W.reader W.fs d.scanPaths).map fun c =>
    { c with metadata := (resolveComponentSecrets out.secretsSvc c).1 }
  (comps, {
    elected := elect d.loaded d.appPaths comps
    provided := (comps.filter fun c =>
      decide (c.path ≠ []) && isAppProvided d.loaded d.appPaths c).map StoreComponent.path })

section System

variable {B : Type} (hash : Str → Str) (yaml : Yaml B) (W : World)

namespace Sys

/-- The state before the first step. -/
def start (r : ConnRegistry B) : Sys B := ⟨r, none, false, .idle, fun _ => .idle⟩

/-- A call of the registry. -/
def onRegistry (σ : Sys B) (op : RegOp) (now : Time) : Sys B :=
  { σ with registry := (σ.registry.apply hash yaml op (calm now)).2 }

def setCall (σ : Sys B) (c : Nat) (pc : CallPc) : Sys B :=
  { σ with calls := Function.update σ.calls c pc }

def setRound (σ : Sys B) (round : Round) : Sys B := { σ with round := round }

/-- What a step leads to; one that is not possible leaves the state as it is. -/
def next (σ : Sys B) : Act → Sys B
  | .reconcile apps out =>
      match σ.round with
      | .idle =>
          if σ.closed then σ
          else σ.setRound (.upserting (planFor W apps out).1 (planFor W apps out).2)
      | _ => σ
  | .upsert now =>
      match σ.round with
      | .upserting (c :: cs) plan =>
          (σ.onRegistry hash yaml (.upsertAuto (autoRef c)) now).setRound (.upserting cs plan)
      | _ => σ
  | .undismissActive now =>
      match σ.round with
      | .upserting [] plan =>
          match plan.elected with
          | some s =>
              if s.path = [] then σ.setRound (.providing plan.provided plan)
              else
                (σ.onRegistry hash yaml (.undismiss s.path) now).setRound
                  (.providing plan.provided plan)
          | none => σ.setRound (.providing plan.provided plan)
      | _ => σ
  | .undismissProvided now =>
      match σ.round with
      | .providing (p :: ps) plan =>
          (σ.onRegistry hash yaml (.undismiss p) now).setRound (.providing ps plan)
      | _ => σ
  | .publish =>
      match σ.round with
      | .providing [] plan =>
          if σ.closed then σ.setRound .idle
          else { σ with active := plan.elected, round := .idle }
      | _ => σ
  | .shutdown => { σ with closed := true }
  | .addStore name type metadata now =>
      σ.onRegistry hash yaml (.add (manualRef [] name type metadata)) now
  | .updateLookup c id name type metadata =>
      match σ.calls c with
      | .idle => σ.setCall c (.updating (manualRef id name type metadata))
      | _ => σ
  | .updateApply c now =>
      match σ.calls c with
      | .updating e => (σ.onRegistry hash yaml (.update e) now).setCall c .idle
      | _ => σ
  | .deleteLookup c id out =>
      match σ.calls c with
      | .idle =>
          σ.setCall c (.deleteFound id (componentFor (W.sources out) σ.registry.entries id))
      | _ => σ
  | .deleteCheck c out =>
      match σ.calls c with
      | .deleteFound id comp =>
          if refused W out comp σ.active then σ.setCall c .idle
          else σ.setCall c (.deletePassed id σ.active)
      | _ => σ
  | .deleteApply c now =>
      match σ.calls c with
      | .deletePassed id _ => (σ.onRegistry hash yaml (.delete id) now).setCall c .idle
      | _ => σ

/-- One step. -/
def step (σ : Sys B) (a : Act) (σ' : Sys B) : Prop := σ' = σ.next hash yaml W a

end Sys

/-! ## 3. What is at stake -/

/-- An auto entry at a path. -/
def AutoAt (l : List ConnEntry) (p : Str) : Prop := ∃ e ∈ l, isAt .auto (normPath p) e = true

/-- One that is not dismissed. -/
def ShownAt (l : List ConnEntry) (p : Str) : Prop :=
  ∃ e ∈ l, isAt .auto (normPath p) e = true ∧ e.dismissed = false

/-- A manual entry owns the path. -/
def OwnedAt (l : List ConnEntry) (p : Str) : Prop := ∃ e ∈ l, isAt .manual (normPath p) e = true

/-- The auto entry for a path exists and is not dismissed, unless a manual entry owns the path. -/
def VisibleAt (l : List ConnEntry) (p : Str) : Prop := ShownAt l p ∨ OwnedAt l p

def CoveredAt (l : List ConnEntry) (p : Str) : Prop := AutoAt l p ∨ OwnedAt l p

/-- What the reconcile still has to upsert. -/
def Round.todo : Round → List StoreComponent
  | .upserting todo _ => todo
  | _ => []

/-- What it elects. -/
def Round.elected : Round → Option StoreComponent
  | .idle => none
  | .upserting _ plan => plan.elected
  | .providing _ plan => plan.elected

/-- It has upserted the store it elects. -/
def Round.Planned : Round → StoreComponent → Prop
  | .upserting todo plan, s => plan.elected = some s ∧ ∀ c ∈ todo, c.path ≠ s.path
  | _, _ => False

/-- It has un-dismissed the store it elects. -/
def Round.Rescued : Round → StoreComponent → Prop
  | .providing _ plan, s => plan.elected = some s
  | _, _ => False

namespace Sys

/-- The published store, and the one that is about to be. -/
def AtStake (σ : Sys B) (s : StoreComponent) : Prop := σ.active = some s ∨ σ.round.Rescued s

/-- The id of the auto entry of a store. -/
def idOf (hash : Str → Str) (s : StoreComponent) : Str := entryID hash .auto (normPath s.path)

/-- A manual entry with this id does not own, alone, the path of a store at stake. -/
def OwnerSafe (σ : Sys B) (id : Str) : Prop :=
  ∀ e ∈ σ.registry.entries, e.id = id →
    (∀ s, σ.AtStake s → isAt .manual (normPath s.path) e = true →
      ShownAt σ.registry.entries s.path) ∧
    ∀ s, σ.round.Planned s → isAt .manual (normPath s.path) e = true →
      AutoAt σ.registry.entries s.path

/-- **The steps that do not go wrong.** `DeleteStore` recognises the entry of the published store;
    when it deletes, a store at stake that it did not compare with has another id; no manual
    entry that owns the path of a store at stake goes. -/
def Safe (σ : Sys B) : Act → Prop
  | .deleteCheck c out =>
      ∀ id comp s, σ.calls c = .deleteFound id comp → σ.active = some s → id = idOf hash s →
        refused W out comp σ.active = true
  | .deleteApply c _ =>
      ∀ id seen, σ.calls c = .deletePassed id seen →
        (∀ s, σ.AtStake s → seen = some s ∨ id ≠ idOf hash s) ∧ σ.OwnerSafe id
  | .updateApply c _ => ∀ e, σ.calls c = .updating e → σ.OwnerSafe e.id
  | _ => True

end Sys

/-! ## 4. What a registry call leaves visible -/

section Calls

variable {hash yaml} {now : Time} {op : RegOp} {l l' : List ConnEntry} {p : Str}

theorem keyed_of_isAt {e : ConnEntry} (hk : WellKeyed hash l) (he : e ∈ l)
    (h : isAt .auto (normPath p) e = true) : e.id = entryID hash .auto (normPath p) := by
  simp only [isAt, Bool.and_eq_true, decide_eq_true_eq] at h
  rw [hk.id_eq e he, h.1, ConnEntry.key, if_neg (by simp [h.1]), h.2]

/-- **Only a deletion of its id hides an entry.** -/
theorem Rewrites.shown (hr : Rewrites hash now op l l') {e : ConnEntry} (he : e ∈ l)
    (hat : isAt .auto (normPath p) e = true) (hd : e.dismissed = false) :
    ShownAt l' p ∨ op = .delete e.id := by
  have hmem : ∀ {x y : ConnEntry} {pre post : List ConnEntry}, e ∈ pre ++ x :: post →
      (e = x → ShownAt (pre ++ y :: post) p) → ShownAt (pre ++ y :: post) p := by
    intro x y pre post he hx
    rcases List.mem_append.mp he with he | he
    · exact ⟨e, List.mem_append_left _ he, hat, hd⟩
    · rcases List.mem_cons.mp he with rfl | he
      · exact hx rfl
      · exact ⟨e, List.mem_append_right _ (List.mem_cons_of_mem _ he), hat, hd⟩
  have hsrc : e.source = .auto ∧ normPath e.path = normPath p := by
    simpa only [isAt, Bool.and_eq_true, decide_eq_true_eq] using hat
  cases hr with
  | @refresh e' cur pre post hcur =>
      refine .inl (hmem he fun hx => ?_)
      simp only [isAt, Bool.and_eq_true, decide_eq_true_eq] at hcur
      refine ⟨_, List.mem_append_right _ List.mem_cons_self, ?_, hx ▸ hd⟩
      have hn : normPath e'.path = normPath p := by rw [← hcur.2, ← hx, hsrc.2]
      simpa [isAt, refreshed, autoEntry, hcur.1] using hn
  | insert => exact .inl ⟨e, List.mem_append_left _ he, hat, hd⟩
  | add => exact .inl ⟨e, List.mem_append_left _ he, hat, hd⟩
  | update hold =>
      refine .inl (hmem he fun hx => ?_)
      simp only [isManualId, Bool.and_eq_true, decide_eq_true_eq] at hold
      rw [← hx, hsrc.1] at hold
      cases hold.1
  | @delete id =>
      by_cases hid : e.id = id
      · exact .inr (by rw [hid])
      · refine .inl ⟨e, List.mem_filterMap.mpr ⟨e, he, ?_⟩, hat, hd⟩
        unfold deleted
        rw [if_neg hid]
  | undismiss hx =>
      refine .inl (hmem he fun heq => ?_)
      exact ⟨_, List.mem_append_right _ List.mem_cons_self, by rw [← heq]; exact hat, rfl⟩

/-- The call removes or replaces the manual entry with this id. -/
def RegOp.Removes (op : RegOp) (id : Str) : Prop :=
  op = .delete id ∨ ∃ e, op = .update e ∧ e.id = id

/-- Only such a call takes the owner of a path away. -/
theorem Rewrites.owned (hr : Rewrites hash now op l l') {e : ConnEntry} (he : e ∈ l)
    (hat : isAt .manual (normPath p) e = true) : OwnedAt l' p ∨ op.Removes e.id := by
  have hman : e.source = .manual := by
    simp only [isAt, Bool.and_eq_true, decide_eq_true_eq] at hat
    exact hat.1
  rcases hr.kept.manual e he hman with he' | hop | ⟨e', hop, hid⟩
  · exact .inl ⟨e, he', hat⟩
  · exact .inr (.inl (Option.some.inj hop))
  · exact .inr (.inr ⟨e', Option.some.inj hop, hid⟩)

variable {r : ConnRegistry B}

theorem VisibleAt.apply (hk : WellKeyed hash r.entries) (h : VisibleAt r.entries p)
    (hdel : op ≠ .delete (entryID hash .auto (normPath p)))
    (hown : ∀ e ∈ r.entries, op.Removes e.id → isAt .manual (normPath p) e = true →
      ShownAt r.entries p) :
    VisibleAt (r.apply hash yaml op (calm now)).2.entries p := by
  rcases @apply_cases B hash yaml op now r with hsame | ⟨es, hr, hnew⟩
  · rw [hsame]
    exact h
  · rw [hnew]
    show VisibleAt es p
    have hshown : ShownAt r.entries p → ShownAt es p := by
      intro ⟨e, he, hat, hd⟩
      rcases hr.shown he hat hd with hs | hop
      · exact hs
      · exact absurd (hop.trans (by rw [keyed_of_isAt hk he hat])) hdel
    rcases h with h | ⟨e, he, hat⟩
    · exact .inl (hshown h)
    · rcases hr.owned he hat with howned | hgone
      · exact .inr howned
      · exact .inl (hshown (hown e he hgone hat))

theorem CoveredAt.apply (h : CoveredAt r.entries p)
    (hown : ∀ e ∈ r.entries, op.Removes e.id → isAt .manual (normPath p) e = true →
      AutoAt r.entries p) :
    CoveredAt (r.apply hash yaml op (calm now)).2.entries p := by
  rcases @apply_cases B hash yaml op now r with hsame | ⟨es, hr, hnew⟩
  · rw [hsame]
    exact h
  · rw [hnew]
    show CoveredAt es p
    have hauto : AutoAt r.entries p → AutoAt es p := by
      intro ⟨e, he, hat⟩
      simp only [isAt, Bool.and_eq_true, decide_eq_true_eq] at hat
      obtain ⟨e', he', hs, hp, -⟩ := hr.kept.auto e he hat.1
      exact ⟨e', he', by simp [isAt, hs, hp, hat.2]⟩
    rcases h with h | ⟨e, he, hat⟩
    · exact .inl (hauto h)
    · rcases hr.owned he hat with howned | hgone
      · exact .inr howned
      · exact .inl (hauto (hown e he hgone hat))

/-- After its upsert a component is covered. -/
theorem covered_upsertAuto (c : StoreComponent) :
    CoveredAt (r.apply hash yaml (.upsertAuto (autoRef c)) (calm now)).2.entries c.path := by
  by_cases hman : OwnedAt r.entries c.path
  · obtain ⟨e, he, hat⟩ := hman
    have hany : r.entries.any (isAt .manual (normPath (autoRef c).path)) = true :=
      List.any_eq_true.mpr ⟨e, he, hat⟩
    rw [apply_upsertAuto, if_pos hany]
    exact .inr ⟨e, he, hat⟩
  · have hnone : ∀ e ∈ r.entries, isAt .manual (normPath c.path) e = false := by
      intro e he
      rw [← Bool.not_eq_true]
      exact fun hat => hman ⟨e, he, hat⟩
    obtain ⟨e, he, href⟩ := @upsertAuto_ref B hash yaml r c now hnone
    exact .inl ⟨e, he, by simp [isAt, href.source, href.path]⟩

/-- After it is un-dismissed a covered path is visible. -/
theorem visible_undismiss (hk : WellKeyed hash r.entries) (h : CoveredAt r.entries p) :
    VisibleAt (r.apply hash yaml (.undismiss p) (calm now)).2.entries p := by
  rw [apply_undismiss]
  cases hs : splitFirst (isTombstone (normPath p)) r.entries with
  | none =>
      rcases h with ⟨e, he, hat⟩ | h
      · refine .inl ⟨e, he, hat, ?_⟩
        have ht := splitFirst_eq_none.mp hs e he
        simp only [isAt, Bool.and_eq_true, decide_eq_true_eq] at hat
        simpa [isTombstone, hat.1, hat.2] using ht
      · exact .inr h
  | some t =>
      obtain ⟨pre, e, post⟩ := t
      obtain ⟨hl, ht, -⟩ := splitFirst_eq_some hs
      have hauto : e.source = .auto := by
        have hv := hk.valid e (by rw [hl]; simp)
        simp only [isTombstone, Bool.and_eq_true, decide_eq_true_eq] at ht
        cases hsrc : e.source with
        | auto => rfl
        | manual => exact absurd hsrc ht.1.1
        | other raw =>
            rw [hsrc] at hv
            exact hv.elim
      simp only [save_calm]
      refine .inl ⟨_, List.mem_append_right _ List.mem_cons_self, ?_, rfl⟩
      simp only [isTombstone, Bool.and_eq_true, decide_eq_true_eq] at ht
      simp [isAt, hauto, ht.2]

end Calls

/-! ## 5. The invariant -/

/-- What holds in every state of a run. -/
structure ElectInv (σ : Sys B) : Prop where
  keyed : WellKeyed hash σ.registry.entries
  todo : ∀ c ∈ σ.round.todo, Path.isAbs c.path = true
  elected : ∀ s, σ.round.elected = some s → Path.isAbs s.path = true
  /-- the elected store is upserted: it has an entry, if only a dismissed one -/
  planned : ∀ s, σ.round.Planned s → CoveredAt σ.registry.entries s.path
  /-- it is un-dismissed, or published -/
  shown : ∀ s, σ.AtStake s → VisibleAt σ.registry.entries s.path
  /-- a deletion that was not refused is not of the store it was compared with -/
  passed : ∀ c id s, σ.calls c = .deletePassed id (some s) → id ≠ Sys.idOf hash s

namespace ElectInv

variable {hash yaml W} {σ : Sys B}

theorem start {r : ConnRegistry B} (h : WellKeyed hash r.entries) :
    ElectInv hash (Sys.start r) := by
  refine ⟨h, fun c hc => absurd hc List.not_mem_nil, fun s hs => ?_, fun s hs => hs.elim,
    fun s hs => ?_, fun c id s hc => ?_⟩
  · cases hs
  · rcases hs with hs | hs
    · cases hs
    · exact hs.elim
  · cases hc

/-- A registry call, the rest as it is. -/
theorem onRegistry (h : ElectInv hash σ) {op : RegOp} (now : Time) (habs : op.AbsPath)
    (hdel : ∀ s, σ.AtStake s → op ≠ .delete (Sys.idOf hash s))
    (hown : ∀ id, op.Removes id → σ.OwnerSafe id) :
    ElectInv hash (σ.onRegistry hash yaml op now) := by
  refine ⟨?_, h.todo, h.elected, fun s hs => ?_, fun s hs => ?_, h.passed⟩
  · show WellKeyed hash (σ.registry.apply hash yaml op (calm now)).2.entries
    rcases @apply_cases B hash yaml op now σ.registry with hsame | ⟨es, hr, hnew⟩
    · rw [hsame]
      exact h.keyed
    · rw [hnew]
      exact hr.wellKeyed habs h.keyed
  · exact (h.planned s hs).apply fun e he hrem hat => (hown e.id hrem e he rfl).2 s hs hat
  · exact (h.shown s hs).apply h.keyed (hdel s hs) fun e he hrem hat =>
      (hown e.id hrem e he rfl).1 s hs hat

/-- A call that removes no entry and hides none. -/
theorem onRegistry_keep (h : ElectInv hash σ) {op : RegOp} (now : Time) (habs : op.AbsPath)
    (hop : ∀ id, ¬ op.Removes id) : ElectInv hash (σ.onRegistry hash yaml op now) :=
  h.onRegistry now habs (fun _ _ he => hop _ (.inl he)) fun id hid => absurd hid (hop id)

theorem setRound (h : ElectInv hash σ) {round : Round}
    (htodo : ∀ c ∈ round.todo, Path.isAbs c.path = true)
    (helected : ∀ s, round.elected = some s → Path.isAbs s.path = true)
    (hplanned : ∀ s, round.Planned s → CoveredAt σ.registry.entries s.path)
    (hshown : ∀ s, round.Rescued s → VisibleAt σ.registry.entries s.path) :
    ElectInv hash (σ.setRound round) := by
  refine ⟨h.keyed, htodo, helected, hplanned, fun s hs => ?_, h.passed⟩
  rcases hs with hs | hs
  · exact h.shown s (.inl hs)
  · exact hshown s hs

theorem setCall (h : ElectInv hash σ) (c : Nat) {pc : CallPc}
    (hpc : ∀ id s, pc = .deletePassed id (some s) → id ≠ Sys.idOf hash s) :
    ElectInv hash (σ.setCall c pc) := by
  refine ⟨h.keyed, h.todo, h.elected, h.planned, h.shown, fun d id s hd => ?_⟩
  by_cases hdc : d = c
  · subst hdc
    have heq : pc = .deletePassed id (some s) := by
      simpa [Sys.setCall] using hd
    exact hpc id s heq
  · have heq : σ.calls d = .deletePassed id (some s) := by
      simpa [Sys.setCall, hdc] using hd
    exact h.passed d id s heq

theorem isAbs_planFor {apps : List AppInfo} {out : Outside} {c : StoreComponent}
    (hc : c ∈ (planFor W apps out).1) : Path.isAbs c.path = true := by
  obtain ⟨x, hx, rfl⟩ := List.mem_map.mp hc
  obtain ⟨data, hfile, -⟩ := mem_detect hx
  exact hfile.abs

/-- A reconcile starts with the elected store among those to upsert. -/
theorem not_planned_planFor {apps : List AppInfo} {out : Outside} {s : StoreComponent} :
    ¬ (Round.upserting (planFor W apps out).1 (planFor W apps out).2).Planned s := fun h =>
  h.2 s (mem_of_elect h.1) rfl

theorem upsert (h : ElectInv hash σ) {c : StoreComponent} {cs : List StoreComponent} {plan : Plan}
    (hround : σ.round = .upserting (c :: cs) plan) (now : Time) :
    ElectInv hash ((σ.onRegistry hash yaml (.upsertAuto (autoRef c)) now).setRound
      (.upserting cs plan)) := by
  have htodo := h.todo
  rw [hround] at htodo
  obtain ⟨hc, hcs⟩ := List.forall_mem_cons.mp htodo
  have h' : ElectInv hash (σ.onRegistry hash yaml (.upsertAuto (autoRef c)) now) :=
    h.onRegistry_keep now hc fun id hrem => by
      rcases hrem with he | ⟨e, he, -⟩ <;> cases he
  have helected := h.elected
  rw [hround] at helected
  refine h'.setRound hcs helected (fun s hs => ?_) fun s hs => hs.elim
  by_cases hpath : c.path = s.path
  · rw [← hpath]
    exact covered_upsertAuto c
  · refine h'.planned s ?_
    show σ.round.Planned s
    rw [hround]
    exact ⟨hs.1, List.forall_mem_cons.mpr ⟨hpath, hs.2⟩⟩

theorem undismissActive (h : ElectInv hash σ) {plan : Plan} (hround : σ.round = .upserting [] plan)
    {s : StoreComponent} (hs : plan.elected = some s) (now : Time) :
    ElectInv hash ((σ.onRegistry hash yaml (.undismiss s.path) now).setRound
      (.providing plan.provided plan)) := by
  have h' : ElectInv hash (σ.onRegistry hash yaml (.undismiss s.path) now) :=
    h.onRegistry_keep now trivial fun id hrem => by
      rcases hrem with he | ⟨e, he, -⟩ <;> cases he
  have helected := h.elected
  rw [hround] at helected
  refine h'.setRound (fun c hc => absurd hc List.not_mem_nil) helected (fun t ht => ht.elim)
    fun t ht => ?_
  have hst : s = t := Option.some.inj (hs.symm.trans ht)
  have hcov : CoveredAt σ.registry.entries s.path := by
    refine h.planned s ?_
    rw [hround]
    exact ⟨hs, fun c hc => absurd hc List.not_mem_nil⟩
  rw [← hst]
  exact visible_undismiss h.keyed hcov

/-- **One safe step keeps the invariant.** -/
theorem step (h : ElectInv hash σ) {a : Act} (hsafe : σ.Safe hash W a) :
    ElectInv hash (σ.next hash yaml W a) := by
  cases a with
  | reconcile apps out =>
      simp only [Sys.next]
      split
      · split
        · exact h
        · exact h.setRound (fun c hc => isAbs_planFor hc)
            (fun s hs => isAbs_planFor (mem_of_elect hs))
            (fun s hs => absurd hs not_planned_planFor) fun s hs => hs.elim
      · exact h
  | upsert now =>
      simp only [Sys.next]
      split
      · rename_i hround
        exact h.upsert hround now
      · exact h
  | undismissActive now =>
      simp only [Sys.next]
      split
      · rename_i plan hround
        split
        · rename_i s hs
          split
          · rename_i hnil
            -- an elected store has a path
            have habs : Path.isAbs s.path = true := h.elected s (by rw [hround]; exact hs)
            rw [hnil] at habs
            cases habs
          · exact h.undismissActive hround hs now
        · rename_i hnone
          have hno : ∀ s, plan.elected = some s → False := fun s hs => by
            rw [hnone] at hs
            cases hs
          exact h.setRound (fun c hc => absurd hc List.not_mem_nil) (fun s hs => (hno s hs).elim)
            (fun s hs => hs.elim) fun s hs => (hno s hs).elim
      · exact h
  | undismissProvided now =>
      simp only [Sys.next]
      split
      · rename_i p ps plan hround
        have h' : ElectInv hash (σ.onRegistry hash yaml (.undismiss p) now) :=
          h.onRegistry_keep now trivial fun id hrem => by
            rcases hrem with he | ⟨e, he, -⟩ <;> cases he
        have helected := h.elected
        rw [hround] at helected
        refine h'.setRound (fun c hc => absurd hc List.not_mem_nil) helected (fun s hs => hs.elim)
          fun s hs => h'.shown s (.inr ?_)
        show σ.round.Rescued s
        rw [hround]
        exact hs
      · exact h
  | publish =>
      simp only [Sys.next]
      split
      · rename_i plan hround
        split
        · exact h.setRound (fun c hc => absurd hc List.not_mem_nil) (fun s hs => by cases hs)
            (fun s hs => hs.elim) fun s hs => hs.elim
        · refine ⟨h.keyed, fun c hc => absurd hc List.not_mem_nil, fun s hs => (by cases hs),
            fun s hs => hs.elim, fun s hs => ?_, h.passed⟩
          rcases hs with hs | hs
          · refine h.shown s (.inr ?_)
            rw [hround]
            exact hs
          · exact hs.elim
      · exact h
  | shutdown => exact ⟨h.keyed, h.todo, h.elected, h.planned, h.shown, h.passed⟩
  | addStore name type metadata now =>
      exact h.onRegistry_keep now trivial fun id hrem => by
        rcases hrem with he | ⟨e, he, -⟩ <;> cases he
  | updateLookup c id name type metadata =>
      simp only [Sys.next]
      split
      · exact h.setCall c fun _ _ he => by cases he
      · exact h
  | updateApply c now =>
      simp only [Sys.next]
      split
      · rename_i e hcall
        refine (@onRegistry _ _ _ _ h (.update e) now trivial (fun s _ he => by cases he)
          fun id hrem => ?_).setCall c fun _ _ he => by cases he
        rcases hrem with he | ⟨e', he, hid⟩
        · cases he
        · cases he
          exact hid ▸ hsafe e hcall
      · exact h
  | deleteLookup c id out =>
      simp only [Sys.next]
      split
      · exact h.setCall c fun _ _ he => by cases he
      · exact h
  | deleteCheck c out =>
      simp only [Sys.next]
      split
      · rename_i id comp hcall
        split
        · exact h.setCall c fun _ _ he => by cases he
        · rename_i hpass
          refine h.setCall c fun id' s he heq => ?_
          obtain ⟨hid, hact⟩ := CallPc.deletePassed.inj he
          exact hpass (hsafe id comp s hcall hact (hid.trans heq))
      · exact h
  | deleteApply c now =>
      simp only [Sys.next]
      split
      · rename_i id seen hcall
        obtain ⟨hrace, howner⟩ := hsafe id seen hcall
        refine (@onRegistry _ _ _ _ h (.delete id) now trivial (fun s hs he => ?_)
          fun id' hrem => ?_).setCall c fun _ _ he => by cases he
        · cases he
          rcases hrace s hs with hseen | hne
          · exact h.passed c _ s (hseen ▸ hcall) rfl
          · exact hne rfl
        · rcases hrem with he | ⟨e, he, -⟩
          · cases he
            exact howner
          · cases he
      · exact h

end ElectInv

variable {hash yaml W}

/-- **The published store is never hidden**, in every state of every run from a well-keyed
    registry whose steps are safe: its auto entry exists and is not dismissed, unless a manual
    entry owns its path. -/
theorem active_visible {r : ConnRegistry B} (hr : WellKeyed hash r.entries)
    {l : List (Sys B × Act)} {σ : Sys B} (h : Trace (Sys.step hash yaml W) (Sys.start r) l σ)
    (hsafe : ∀ p ∈ l, p.1.Safe hash W p.2) {s : StoreComponent} (hs : σ.active = some s) :
    VisibleAt σ.registry.entries s.path := by
  have hinv : ElectInv hash σ := by
    refine Trace.inv_of (ElectInv.start hr) (fun τ a τ' hI hC hstep => ?_) h hsafe
    have heq : τ' = τ.next hash yaml W a := hstep
    rw [heq]
    exact hI.step hC
  exact hinv.shown s (.inl hs)

end System

/-! ## 6. A refused deletion and a late one -/

/-- The component file `/a/s.yaml` with one store, and the dashboard told to read that file. -/
def oneStore : World where
  reader := redisReader
  fs := oneFile (redisDoc 'a')
  fixed := ⟨[], sYaml, []⟩
  parseURL _ := none

/-- No secrets, no compose project. -/
def nothingOutside : Outside := ⟨none, StoreComponent.metadata⟩

/-- The registry that an earlier run has left. -/
def knownStore : ConnRegistry (List ConnEntry) :=
  (newRegistry.apply digest plainYaml (.upsertAuto (autoRef (redisStore 'a'))) (calm 1)).2

theorem wellKeyed_knownStore : WellKeyed digest knownStore.entries := by
  rcases @apply_cases _ digest plainYaml (.upsertAuto (autoRef (redisStore 'a'))) 1 newRegistry
    with h | ⟨es, hr, h⟩
  · unfold knownStore
    rw [h]
    exact (@runInv_newRegistry _ digest plainYaml).keyed
  · unfold knownStore
    rw [h]
    have habs : Path.isAbs sYaml = true := by decide
    exact hr.wellKeyed habs (@runInv_newRegistry _ digest plainYaml).keyed

/-- One reconcile. -/
def reconcileSteps : List Act :=
  [.reconcile [] nothingOutside, .upsert 2, .undismissActive 2, .publish]

/-- A reconcile, and then a deletion of the store it has published, which is refused. -/
def refusedSteps : List Act :=
  reconcileSteps ++ [.deleteLookup 0 (entryID digest .auto sYaml) nothingOutside,
    .deleteCheck 0 nothingOutside]

theorem active_visible_refused :
    (refusedSteps.foldl (Sys.next digest plainYaml oneStore) (Sys.start knownStore)).active =
        some (redisStore 'a') ∧
      VisibleAt (refusedSteps.foldl (Sys.next digest plainYaml oneStore)
        (Sys.start knownStore)).registry.entries sYaml := by
  have hact : (refusedSteps.foldl (Sys.next digest plainYaml oneStore)
      (Sys.start knownStore)).active = some (redisStore 'a') := by decide +kernel
  refine ⟨hact, ?_⟩
  refine active_visible wellKeyed_knownStore (Trace.of_visited _ _ refusedSteps) ?_ hact
  -- only the comparison has something to meet
  have hfound : ((refusedSteps.take 5).foldl (Sys.next digest plainYaml oneStore)
      (Sys.start knownStore)).calls 0 =
        .deleteFound (entryID digest .auto sYaml) (some (redisStore 'a')) := by decide +kernel
  have hrefused : refused oneStore nothingOutside (some (redisStore 'a'))
      ((refusedSteps.take 5).foldl (Sys.next digest plainYaml oneStore)
        (Sys.start knownStore)).active = true := by decide +kernel
  refine List.forall_mem_cons.mpr ⟨trivial, List.forall_mem_cons.mpr ⟨trivial, ?_⟩⟩
  refine List.forall_mem_cons.mpr ⟨trivial, List.forall_mem_cons.mpr ⟨trivial, ?_⟩⟩
  refine List.forall_mem_cons.mpr ⟨trivial, List.forall_mem_cons.mpr ⟨?_, ?_⟩⟩
  · intro id comp s hcall _ _
    obtain ⟨-, hcomp⟩ := CallPc.deleteFound.inj (hfound.symm.trans hcall)
    rw [← hcomp]
    exact hrefused
  · exact fun _ h => absurd h List.not_mem_nil

/-- The deletion of the store is not refused before the reconcile, and takes place after it. -/
def lateSteps : List Act :=
  [.deleteLookup 0 (entryID digest .auto sYaml) nothingOutside, .deleteCheck 0 nothingOutside] ++
    reconcileSteps ++ [.deleteApply 0 3]

/-- The published store is hidden: the entry of its path is dismissed, nothing is under way, and no
    manual entry is there. -/
theorem active_hidden :
    WellKeyed digest knownStore.entries ∧
      ∃ l σ, Trace (Sys.step digest plainYaml oneStore) (Sys.start knownStore) l σ ∧
        (∀ c, σ.calls c = .idle) ∧ σ.round = .idle ∧ σ.active = some (redisStore 'a') ∧
        ¬ VisibleAt σ.registry.entries sYaml := by
  refine ⟨wellKeyed_knownStore, _, _, Trace.of_visited _ _ lateSteps, fun c => ?_, ?_, ?_, ?_⟩
  · cases c with
    | zero => decide +kernel
    | succ c => rfl
  · rfl
  · decide +kernel
  · unfold VisibleAt ShownAt OwnedAt
    decide +kernel

end DevDashboard.Cmd
