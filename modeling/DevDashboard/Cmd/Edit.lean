/-
  File:      DevDashboard/Cmd/Edit.lean
  Subject:   AN EDIT OF A MANUAL CONNECTION WHILE IT IS IN USE (`UpdateStore`, `ServiceFor` and
             `StateFor` of `cmd/reconciler.go` over the pool of `cmd/connpool.go`).

  `UpdateStore` looks the old component up, rewrites the registry and evicts the old connection;
  `ServiceFor` and `StateFor` resolve a component and then go to the pool, which knows it by its
  identity only. One `UpdateStore` runs with any number of such calls on the old or the new id,
  step by step in any order; the pool is the one of `Cmd/ConnPool.lean`.

  * `step_slots`, `step_store`, `step_returned`, ... -- what one step of the pool can show;
  * `EditInv` -- which call's component stands behind every slot and store;
  * `edit_serves_new` -- once the edit has returned, calls on the new id get stores that were
    opened with the new metadata, in every run whose steps are `Safe`.
-/
import DevDashboard.Cmd.Components
import DevDashboard.Cmd.ConnPoolSafety

namespace DevDashboard.Cmd

open Lib StateStore Workflow ConnRegistry

/-! ## 1. What one step of the pool can show -/

section PoolSteps

variable {I E : Type} [DecidableEq I] {p p' : Pool I E} {c : CallId}

/-- A slot that is in the map was there, or is the one the call just made. -/
theorem step_slots (hs : Step p c p') {id : I} {s : SlotId} (h : p'.slots id = some s) :
    p.slots id = some s ∨
      (p.pc c = .called (.openOrGet id) ∧ p.slots id = none ∧ s = p.nslots ∧
        p'.owner s = c) := by
  cases hs with
  | make id' hp hc hnone =>
      simp only [Pool.goto, Pool.insert, Function.update_apply] at h ⊢
      split at h
      · rename_i heq
        cases h
        exact .inr ⟨heq ▸ hp, heq ▸ hnone, rfl, if_pos rfl⟩
      · exact .inl h
  | dropFailed | recheckEvicted | evictTake =>
      simp only [Pool.goto, Pool.delete, Function.update_apply] at h
      split at h
      · cases h
      · exact .inl h
  | closeTake => cases h
  | _ => exact .inl h

/-- A slot keeps its owner; the owner of a new one is the acting call. -/
theorem step_owner (hs : Step p c p') (s : SlotId) :
    (s < p.nslots → p'.owner s = p.owner s) ∧
      (s < p'.nslots → s < p.nslots ∨ (s = p.nslots ∧ p'.owner s = c ∧
        ∃ id, p.pc c = .called (.openOrGet id))) := by
  cases hs with
  | make id hp =>
      simp only [Pool.goto, Pool.insert, Function.update_apply]
      refine ⟨fun hlt => if_neg (Nat.ne_of_lt hlt), fun hlt => ?_⟩
      by_cases heq : s = p.nslots
      · exact .inr ⟨heq, if_pos heq, id, hp⟩
      · exact .inl (Nat.lt_of_le_of_ne (Nat.lt_succ_iff.mp hlt) heq)
  | _ => exact ⟨fun _ => rfl, fun hlt => .inl hlt⟩

/-- What a slot holds was there, or is what the call that made the slot had in hand. -/
theorem step_store (hs : Step p c p') {s : SlotId} {st : StoreId}
    (h : (p'.slot s).store = some st) :
    (p.slot s).store = some st ∨ p.pc c = .confirmed s st := by
  cases hs with
  | make id hp =>
      simp only [Pool.goto, Pool.insert, Function.update_apply] at h
      split at h
      · cases h
      · exact .inl h
  | publish t st' hp =>
      simp only [Pool.goto, Pool.setStore, Function.update_apply] at h
      split at h
      · rename_i heq
        cases h
        exact .inr (heq ▸ hp)
      · exact .inl h
  | finishFailed t e hp | finishRejected t hp | finishPublish t hp =>
      refine .inl ?_
      by_cases hst : s = t
      · subst hst
        simpa [Pool.goto, Pool.closeDone, Pool.setErr] using h
      · simpa [Pool.goto, Pool.closeDone, Pool.setErr, Function.update_of_ne hst] using h
  | _ => exact .inl h

/-- The entry of a slot is its store. -/
theorem step_entry (hs : Step p c p') (h : ∀ s, (p.slot s).entry = (p.slot s).store) (s : SlotId) :
    (p'.slot s).entry = (p'.slot s).store := by
  cases hs with
  | make id hp =>
      simp only [Pool.goto, Pool.insert, Function.update_apply]
      split
      · rfl
      · exact h s
  | publish t st hp =>
      simp only [Pool.goto, Pool.setStore, Function.update_apply]
      split
      · rfl
      · exact h s
  | finishFailed t e hp | finishRejected t hp | finishPublish t hp =>
      simp only [Pool.goto, Pool.closeDone, Pool.setErr, Function.update_apply]
      by_cases hst : s = t
      · rw [if_pos hst]
        simpa [hst] using h t
      · rw [if_neg hst]
        simpa [hst] using h s
  | _ => exact h s

/-- A store in hand was in hand, or is new. -/
theorem step_inHand (hs : Step p c p') {st : StoreId} (h : (p'.pc c).inHand = some st) :
    (p.pc c).inHand = some st ∧ p'.nstores = p.nstores ∨
      st = p.nstores ∧ p'.nstores = p.nstores + 1 := by
  cases hs <;> simp_all [Pool.goto, Pool.insert, Pool.delete, Pool.closeDone, Pool.setErr,
    Pool.setStore, Pool.closeStore, Pool.countOpen, Pool.takeAll, Pool.settle, Pc.inHand]

theorem step_nstores (hs : Step p c p') : p.nstores ≤ p'.nstores := by
  cases hs <;> simp [Pool.goto, Pool.insert, Pool.delete, Pool.closeDone, Pool.setErr,
    Pool.setStore, Pool.closeStore, Pool.countOpen, Pool.takeAll, Pool.settle]

/-- A call is at its first lock only after its invocation. -/
theorem step_called (hs : Step p c p') {op : Op I} (h : p'.pc c = .called op) : p.pc c = .idle := by
  cases hs <;> simp_all [Pool.goto]

/-- A call that waits found its slot in the map. -/
theorem step_waiting (hs : Step p c p') {s : SlotId} (h : p'.pc c = .waiting s) :
    ∃ id, p.pc c = .called (.openOrGet id) ∧ p.slots id = some s := by
  cases hs <;> simp_all [Pool.goto]

/-- An eviction that is past its lock has left no slot under the id. -/
theorem step_evicted (hs : Step p c p') {id : I} (h : p.pc c = .called (.evict id)) :
    p'.slots id = none := by
  cases hs <;> simp_all [Pool.goto, Pool.delete]

theorem step_returned (hs : Step p c p') {entry : Option StoreId} {err : Option (PoolErr E)}
    (h : p'.pc c = .returned (.openOrGet entry err)) :
    err ≠ none ∨
      (∃ s, p.pc c = .waiting s ∧ (p.slot s).done = true ∧ entry = (p.slot s).entry ∧
        err = (p.slot s).err) ∨
      ∃ s, p.pc c = .publishing s ∧ entry = (p.slot s).entry := by
  cases hs with
  | refuse =>
      simp only [Pool.goto, Function.update_self, Pc.returned.injEq, Ret.openOrGet.injEq] at h
      exact .inl (by simp [← h.2])
  | awake s hp hd =>
      simp only [Pool.goto, Function.update_self, Pc.returned.injEq, Ret.openOrGet.injEq] at h
      exact .inr (.inl ⟨s, hp, hd, h.1.symm, h.2.symm⟩)
  | finishFailed | finishRejected =>
      simp only [Pool.goto, Function.update_self, Pc.returned.injEq, Ret.openOrGet.injEq] at h
      exact .inl (by simp [← h.2])
  | finishPublish s hp =>
      simp only [Pool.goto, Function.update_self, Pc.returned.injEq, Ret.openOrGet.injEq] at h
      exact .inr (.inr ⟨s, hp, h.1.symm⟩)
  | _ => simp [Pool.goto] at h

/-- A call that publishes has put its store into the slot. -/
theorem step_publishing (hs : Step p c p') {s : SlotId} (h : p'.pc c = .publishing s) :
    (p'.slot s).store ≠ none := by
  cases hs <;> simp_all [Pool.goto, Pool.setStore]

/-- A slot that is done without an error holds a store. -/
theorem step_done (hs : Step p c p')
    (h : ∀ s, (p.slot s).done = true → (p.slot s).err = none → (p.slot s).store ≠ none)
    (hpub : ∀ s, p.pc c = .publishing s → (p.slot s).store ≠ none) (s : SlotId) :
    (p'.slot s).done = true → (p'.slot s).err = none → (p'.slot s).store ≠ none := by
  cases hs with
  | make id hp =>
      simp only [Pool.goto, Pool.insert, Function.update_apply]
      split
      · intro hd
        cases hd
      · exact h s
  | publish t st hp =>
      simp only [Pool.goto, Pool.setStore, Function.update_apply]
      split
      · simp
      · exact h s
  | finishFailed t e hp | finishRejected t hp =>
      simp only [Pool.goto, Pool.closeDone, Pool.setErr, Function.update_apply]
      by_cases hst : s = t
      · simp [hst]
      · simpa [hst] using h s
  | finishPublish t hp =>
      simp only [Pool.goto, Pool.closeDone, Function.update_apply]
      by_cases hst : s = t
      · intro _ _
        simpa [hst] using hpub t hp
      · simpa [hst] using h s
  | _ => exact h s

end PoolSteps

/-! ## 2. What an id resolves to -/

section Ids

variable {B : Type} {hash : Str → Str} {yaml : Yaml B} {src : Sources} {l : List ConnEntry}

theorem translate_manualComponent (e : ConnEntry) :
    translate src (manualComponent e) = manualComponent e := if_pos rfl

theorem eq_of_id (hinj : EntryIDInjective hash) (hk : WellKeyed hash l) {x y : ConnEntry}
    (hx : x ∈ l) (hy : y ∈ l) (h : x.id = y.id) : x = y := by
  rw [hk.id_eq x hx, hk.id_eq y hy] at h
  obtain ⟨hs, hkey⟩ := hinj _ _ _ _ (hk.valid x hx) (hk.valid y hy) h
  exact List.inj_on_of_nodup_map hk.keys hx hy (Prod.ext hs hkey)

/-- An entry with the id of a manual connection's name is that connection. -/
theorem isNamed_of_id (hinj : EntryIDInjective hash) (hk : WellKeyed hash l) {x : ConnEntry}
    (hx : x ∈ l) {name : Str} (h : x.id = entryID hash .manual name) : isNamed name x = true := by
  rw [hk.id_eq x hx] at h
  obtain ⟨hs, hkey⟩ := hinj _ _ .manual name (hk.valid x hx) trivial h
  exact isNamed_of_keyed name (Prod.ext hs hkey)

theorem exists_of_resolveEntry {id : Str} {y : StoreComponent}
    (h : resolveEntry src l id = some y) :
    ∃ x ∈ l, x.id = id ∧ (x.source = .manual → y = manualComponent x) := by
  obtain ⟨c, hc, rfl⟩ := Option.map_eq_some_iff.mp h
  obtain ⟨x, hx, rfl⟩ := Option.map_eq_some_iff.mp hc
  refine ⟨x, List.mem_of_find?_eq_some hx, by simpa using List.find?_some hx, fun hman => ?_⟩
  simp only [componentForEntry, if_pos hman, translate_manualComponent]

/-- An update that succeeds. -/
theorem update_ok {r : ConnRegistry B} {e : ConnEntry} {env : SaveEnv}
    (h : (r.apply hash yaml (.update e) env).1 = none) :
    ∃ pre old post, r.entries = pre ++ old :: post ∧ isManualId e.id old = true ∧
      (∀ x ∈ pre ++ post, isNamed e.name x = false) ∧
      (r.apply hash yaml (.update e) env).2.entries =
        pre ++ manualEntry hash env.now e :: post := by
  rw [apply_update] at h ⊢
  cases hs : splitFirst (isManualId e.id) r.entries with
  | none =>
      rw [hs] at h
      cases h
  | some t =>
      obtain ⟨pre, old, post⟩ := t
      obtain ⟨hl, hold, -⟩ := splitFirst_eq_some hs
      rw [hs] at h
      simp only at h ⊢
      by_cases hn : (pre ++ post).any (isNamed e.name) = true
      · rw [if_pos hn] at h
        cases h
      · refine ⟨pre, old, post, hl, hold, any_eq_false_iff.mp hn, ?_⟩
        rw [if_neg hn]
        unfold save
        split <;> rfl

end Ids

/-! ## 3. The system -/

/-- The edit: the manual entry there is, and what it becomes. -/
structure Edit where
  old : ConnEntry
  name : Str
  type : StoreType
  metadata : Metadata

namespace Edit

variable (ed : Edit)

/-- What `UpdateStore` hands to the registry. -/
def entry : ConnEntry := manualRef ed.old.id ed.name ed.type ed.metadata

def oldComp : StoreComponent := manualComponent ed.old

def newComp : StoreComponent := manualComponent ed.entry

/-- The old id, or the new one. -/
def idOf (hash : Str → Str) (new : Bool) : Str :=
  if new then entryID hash .manual ed.name else ed.old.id

end Edit

/-- Where `UpdateStore` is. -/
inductive UpdPc where
  | before
  /-- it has the old component -/
  | found (old : Option StoreComponent)
  /-- the registry is rewritten -/
  | stored (old : Option StoreComponent)
  /-- in `evict` -/
  | evicting
  | returned
  /-- it has returned an error -/
  | failed

/-- The call of the pool that `UpdateStore` makes. -/
def updater : CallId := 0

structure EditSys (B E : Type) where
  registry : ConnRegistry B
  pool : Pool Str E
  /-- the component a `ServiceFor` or `StateFor` call has resolved -/
  comp : CallId → Option StoreComponent
  /-- ledger: the call is on the new id and was made after `UpdateStore` had returned -/
  fresh : CallId → Bool
  /-- ledger: the component a store was opened with -/
  openedWith : StoreId → Option StoreComponent
  upd : UpdPc

inductive EditAct where
  | resolve (c : CallId)
  | enter (c : CallId)
  | pool (c : CallId)
  | lookup
  | store
  | evict
  | finish

section System

variable {B E : Type} (hash : Str → Str) (yaml : Yaml B) (src : Sources)
  (parseURL : Str → Option ParsedURL) (ed : Edit)

/-- The pool's key of a component. -/
def keyOf (x : StoreComponent) : Str := identity parseURL (some (connOf x))

/-- The state before the first step. -/
def EditSys.start (r : ConnRegistry B) : EditSys B E where
  registry := r
  pool := newConnPool
  comp _ := none
  fresh _ := false
  openedWith _ := none
  upd := .before

/-- The ledger after a step of the pool by call `c`. -/
def EditSys.ledgerAfter (σ : EditSys B E) (c : CallId) (p' : Pool Str E) :
    StoreId → Option StoreComponent :=
  if p'.nstores = σ.pool.nstores then σ.openedWith
  else Function.update σ.openedWith σ.pool.nstores (σ.comp c)

/-- **One step.** -/
inductive EditStep : EditSys B E → EditAct → EditSys B E → Prop where
  /-- `resolveComponent` of the old or the new id -/
  | resolve (σ : EditSys B E) (c : CallId) (new : Bool) (x : StoreComponent) (b : Bool)
      (hc : c ≠ updater) (hnone : σ.comp c = none) (hp : σ.pool.pc c = .idle)
      (hx : resolveEntry src σ.registry.entries (ed.idOf hash new) = some x)
      (hb : b = true ↔ σ.upd = .returned ∧ ed.idOf hash new = ed.idOf hash true) :
      EditStep σ (.resolve c)
        { σ with comp := Function.update σ.comp c (some x), fresh := Function.update σ.fresh c b }
  /-- the call of `openOrGet` -/
  | enter (σ : EditSys B E) (c : CallId) (x : StoreComponent) (hx : σ.comp c = some x)
      (hp : σ.pool.pc c = .idle) :
      EditStep σ (.enter c)
        { σ with pool := σ.pool.goto c (.called (.openOrGet (keyOf parseURL x))) }
  /-- a step inside the pool -/
  | pool (σ : EditSys B E) (c : CallId) (p' : Pool Str E) (hp : σ.pool.pc c ≠ .idle)
      (hs : Step σ.pool c p') :
      EditStep σ (.pool c) { σ with pool := p', openedWith := σ.ledgerAfter c p' }
  | lookup (σ : EditSys B E) (hu : σ.upd = .before) :
      EditStep σ .lookup
        { σ with upd := .found (componentFor src σ.registry.entries ed.old.id) }
  | storeOk (σ : EditSys B E) (old : Option StoreComponent) (env : SaveEnv)
      (hu : σ.upd = .found old) (hok : (σ.registry.apply hash yaml (.update ed.entry) env).1 = none) :
      EditStep σ .store
        { σ with
          registry := (σ.registry.apply hash yaml (.update ed.entry) env).2, upd := .stored old }
  | storeErr (σ : EditSys B E) (old : Option StoreComponent) (env : SaveEnv) (err : RegistryErr)
      (hu : σ.upd = .found old)
      (herr : (σ.registry.apply hash yaml (.update ed.entry) env).1 = some err) :
      EditStep σ .store
        { σ with registry := (σ.registry.apply hash yaml (.update ed.entry) env).2, upd := .failed }
  /-- the call of `evict` -/
  | evict (σ : EditSys B E) (x : StoreComponent) (hu : σ.upd = .stored (some x))
      (hp : σ.pool.pc updater = .idle) :
      EditStep σ .evict
        { σ with pool := σ.pool.goto updater (.called (.evict (keyOf parseURL x))), upd := .evicting }
  /-- there was no old component -/
  | skip (σ : EditSys B E) (hu : σ.upd = .stored none) : EditStep σ .evict { σ with upd := .returned }
  | finish (σ : EditSys B E) (hu : σ.upd = .evicting) (hp : σ.pool.pc updater = .returned .evict) :
      EditStep σ .finish { σ with upd := .returned }

/-- `evict` is past its lock. -/
def EditSys.Swept (σ : EditSys B E) : Prop :=
  σ.upd = .returned ∨ (σ.upd = .evicting ∧ ∀ op, σ.pool.pc updater ≠ .called op)

/-- **The steps that do not go wrong**: once `evict` is past its lock, a call that finds no slot
    under the key of the new component, and makes one, has resolved the new component. -/
def EditSys.Safe (σ : EditSys B E) : EditAct → Prop
  | .pool c =>
      σ.Swept → ∀ x, σ.pool.pc c = .called (.openOrGet (keyOf parseURL ed.newComp)) →
        σ.pool.slots (keyOf parseURL ed.newComp) = none → σ.comp c = some x → x = ed.newComp
  | _ => True

/-! ## 4. The component behind a slot and a store -/

/-- What the pool's slots and stores have to do with the components of the calls. -/
structure PoolLedger (σ : EditSys B E) : Prop where
  pool : PoolInv σ.pool
  entry : ∀ s, (σ.pool.slot s).entry = (σ.pool.slot s).store
  done : ∀ s, (σ.pool.slot s).done = true → (σ.pool.slot s).err = none →
    (σ.pool.slot s).store ≠ none
  publishing : ∀ c s, σ.pool.pc c = .publishing s → (σ.pool.slot s).store ≠ none
  unopened : ∀ st, σ.pool.nstores ≤ st → σ.openedWith st = none
  hand : ∀ c st, (σ.pool.pc c).inHand = some st → σ.openedWith st = σ.comp c
  stored : ∀ s st, (σ.pool.slot s).store = some st → σ.openedWith st = σ.comp (σ.pool.owner s)
  owned : ∀ s, s < σ.pool.nslots → σ.comp (σ.pool.owner s) ≠ none
  called : ∀ c id, σ.pool.pc c = .called (.openOrGet id) →
    ∃ x, σ.comp c = some x ∧ keyOf parseURL x = id
  keyed : ∀ id s, σ.pool.slots id = some s →
    ∃ x, σ.comp (σ.pool.owner s) = some x ∧ keyOf parseURL x = id

namespace PoolLedger

variable {parseURL} {σ : EditSys B E}

theorem start (r : ConnRegistry B) : PoolLedger parseURL (EditSys.start r : EditSys B E) := by
  refine ⟨poolInv_new, fun s => rfl, fun s hd => ?_, fun c s h => ?_, fun _ _ => rfl,
    fun c st h => ?_, fun s st h => ?_, fun s h => ?_, fun c id h => ?_, fun id s h => ?_⟩
  · cases hd
  · cases h
  · cases h
  · cases h
  · exact absurd h (Nat.not_lt_zero s)
  · cases h
  · cases h

theorem slot_lt (h : PoolLedger parseURL σ) {s : SlotId} {st : StoreId}
    (hs : (σ.pool.slot s).store = some st) : s < σ.pool.nslots := by
  refine Nat.lt_of_not_le fun hle => ?_
  rw [(h.pool.unborn s hle).1] at hs
  cases hs

theorem ledgerAfter_of_lt {c : CallId} {p' : Pool Str E} {st : StoreId}
    (h : st < σ.pool.nstores) : σ.ledgerAfter c p' st = σ.openedWith st := by
  unfold EditSys.ledgerAfter
  split
  · rfl
  · exact Function.update_of_ne (Nat.ne_of_lt h) _ _

/-- A call that is not in the pool yet resolves its component. -/
theorem resolve (h : PoolLedger parseURL σ) {c : CallId} (hnone : σ.comp c = none)
    (hp : σ.pool.pc c = .idle) (x : StoreComponent) (b : Bool) :
    PoolLedger parseURL
      { σ with comp := Function.update σ.comp c (some x), fresh := Function.update σ.fresh c b } := by
  have hcomp : ∀ d, σ.comp d ≠ none → Function.update σ.comp c (some x) d = σ.comp d := by
    intro d hd
    have hdc : d ≠ c := fun he => hd (by rw [he, hnone])
    exact Function.update_of_ne hdc _ _
  refine ⟨h.pool, h.entry, h.done, h.publishing, h.unopened, fun d st hd => ?_, fun s st hs => ?_,
    fun s hs => ?_, fun d id hd => ?_, fun id s hs => ?_⟩
  · have hdc : d ≠ c := by
      intro he
      rw [he] at hd
      replace hd : (σ.pool.pc c).inHand = some st := hd
      rw [hp] at hd
      cases hd
    exact (h.hand d st hd).trans (Function.update_of_ne hdc _ _).symm
  · rw [h.stored s st hs]
    exact (hcomp _ (h.owned s (h.slot_lt hs))).symm
  · show Function.update σ.comp c (some x) _ ≠ none
    rw [hcomp _ (h.owned s hs)]
    exact h.owned s hs
  · obtain ⟨y, hy, hid⟩ := h.called d id hd
    exact ⟨y, (hcomp d (by simp [hy])).trans hy, hid⟩
  · obtain ⟨y, hy, hid⟩ := h.keyed id s hs
    exact ⟨y, (hcomp _ (by simp [hy])).trans hy, hid⟩

/-- A call enters the pool: `openOrGet` of its component, or `evict`. -/
theorem invoke (h : PoolLedger parseURL σ) {c : CallId} (hp : σ.pool.pc c = .idle) {op : Op Str}
    (hop : ∀ id, op = .openOrGet id → ∃ x, σ.comp c = some x ∧ keyOf parseURL x = id)
    (u : UpdPc) :
    PoolLedger parseURL { σ with pool := σ.pool.goto c (.called op), upd := u } := by
  have hpc : ∀ d, d ≠ c → (σ.pool.goto c (.called op)).pc d = σ.pool.pc d := fun d hd =>
    Function.update_of_ne hd _ _
  have hself : (σ.pool.goto c (.called op)).pc c = .called op := Function.update_self _ _ _
  refine ⟨poolInv_step h.pool (.invoke _ c op hp), h.entry, h.done, fun d s hd => ?_, h.unopened,
    fun d st hd => ?_, h.stored, h.owned, fun d id hd => ?_, h.keyed⟩
  · by_cases hdc : d = c
    · rw [hdc, hself] at hd
      cases hd
    · rw [hpc d hdc] at hd
      exact h.publishing d s hd
  · by_cases hdc : d = c
    · rw [hdc, hself] at hd
      cases hd
    · rw [hpc d hdc] at hd
      exact h.hand d st hd
  · by_cases hdc : d = c
    · rw [hdc, hself] at hd
      rw [hdc]
      exact hop id (Pc.called.inj hd)
    · rw [hpc d hdc] at hd
      exact h.called d id hd

/-- **A step of the pool.** -/
theorem step (h : PoolLedger parseURL σ) {c : CallId} {p' : Pool Str E}
    (hp : σ.pool.pc c ≠ .idle) (hs : Step σ.pool c p') :
    PoolLedger parseURL { σ with pool := p', openedWith := σ.ledgerAfter c p' } := by
  have howner : ∀ s, s < σ.pool.nslots → p'.owner s = σ.pool.owner s := fun s =>
    (step_owner hs s).1
  refine ⟨poolInv_step h.pool hs, step_entry hs h.entry, step_done hs h.done (h.publishing c),
    fun d s hd => ?_, fun st hst => ?_, fun d st hd => ?_, fun s st hst => ?_, fun s hlt => ?_,
    fun d id hd => ?_, fun id s hid => ?_⟩
  · by_cases hdc : d = c
    · exact step_publishing hs (hdc ▸ hd)
    · rw [pc_of_ne hs hdc] at hd
      obtain ⟨st, hst⟩ := Option.ne_none_iff_exists'.mp (h.publishing d s hd)
      exact Option.ne_none_iff_exists'.mpr ⟨st, store_step h.pool hs hst⟩
  · have hle := Nat.le_trans (step_nstores hs) hst
    show σ.ledgerAfter c p' st = none
    unfold EditSys.ledgerAfter
    split
    · exact h.unopened st hle
    · rename_i hne
      have hlt : σ.pool.nstores < st :=
        Nat.lt_of_lt_of_le (Nat.lt_of_le_of_ne (step_nstores hs) (Ne.symm hne)) hst
      rw [Function.update_of_ne (Nat.ne_of_gt hlt)]
      exact h.unopened st hle
  · show σ.ledgerAfter c p' st = σ.comp d
    by_cases hdc : d = c
    · subst hdc
      rcases step_inHand hs hd with ⟨hold, -⟩ | ⟨rfl, hnew⟩
      · rw [ledgerAfter_of_lt (h.pool.hand d st hold).1]
        exact h.hand d st hold
      · unfold EditSys.ledgerAfter
        rw [if_neg (by omega), Function.update_self]
    · rw [pc_of_ne hs hdc] at hd
      rw [ledgerAfter_of_lt (h.pool.hand d st hd).1]
      exact h.hand d st hd
  · show σ.ledgerAfter c p' st = σ.comp (p'.owner s)
    rcases step_store hs hst with hold | hconf
    · rw [ledgerAfter_of_lt (h.pool.stored s st hold).1, howner s (h.slot_lt hold)]
      exact h.stored s st hold
    · -- the call that made the slot puts in what it opened
      obtain ⟨hown, hlt, -⟩ := h.pool.opener c s (by rw [hconf]; rfl)
      have hhand : (σ.pool.pc c).inHand = some st := by rw [hconf]; rfl
      rw [ledgerAfter_of_lt (h.pool.hand c st hhand).1, howner s hlt, hown]
      exact h.hand c st hhand
  · show σ.comp (p'.owner s) ≠ none
    rcases (step_owner hs s).2 hlt with hold | ⟨-, hown, id, hcall⟩
    · rw [howner s hold]
      exact h.owned s hold
    · obtain ⟨x, hx, -⟩ := h.called c id hcall
      rw [hown, hx]
      simp
  · by_cases hdc : d = c
    · exact absurd (step_called hs (hdc ▸ hd)) hp
    · rw [pc_of_ne hs hdc] at hd
      exact h.called d id hd
  · show ∃ x, σ.comp (p'.owner s) = some x ∧ _
    rcases step_slots hs hid with hold | ⟨hcall, -, -, hown⟩
    · rw [howner s (h.pool.slots_lt hold)]
      exact h.keyed id s hold
    · rw [hown]
      exact h.called c id hcall

end PoolLedger

/-! ## 5. The edit -/

/-- The registry is not rewritten yet. -/
def UpdPc.Early : UpdPc → Prop
  | .before | .found _ => True
  | _ => False

/-- The registry is rewritten. -/
def UpdPc.Late : UpdPc → Prop
  | .stored _ | .evicting | .returned => True
  | _ => False

theorem UpdPc.Late.not_early {u : UpdPc} (hl : u.Late) : ¬ u.Early := by
  cases u <;> first | exact fun he => he | exact hl.elim

/-- No other connection has the new name. -/
def Edit.Free (l : List ConnEntry) : Prop := ∀ x ∈ l, x ≠ ed.old → isNamed ed.name x = false

/-- What holds in every state of a run, until the edit fails. -/
structure EditInv (r : ConnRegistry B) (σ : EditSys B E) : Prop where
  ledger : PoolLedger parseURL σ
  updater : σ.comp updater = none
  comps : ∀ c x, σ.comp c = some x → x = ed.oldComp ∨ x = ed.newComp
  phase : σ.upd.Early ∧ σ.registry = r ∨
    σ.upd.Late ∧ ∀ new y, resolveEntry src σ.registry.entries (ed.idOf hash new) = some y →
      y = ed.newComp
  old : ∀ o, σ.upd = .found o ∨ σ.upd = .stored o → o = some ed.oldComp
  evict : ∀ op, σ.pool.pc Cmd.updater = .called op → op = .evict (keyOf parseURL ed.oldComp)
  /-- once `evict` is past its lock, the new key leads to the new component -/
  swept : σ.Swept → ∀ s, σ.pool.slots (keyOf parseURL ed.newComp) = some s →
    σ.comp (σ.pool.owner s) = some ed.newComp
  fresh : ∀ c, σ.fresh c = true → σ.upd = .returned ∧ σ.comp c = some ed.newComp
  waiting : ∀ c s, σ.fresh c = true → σ.pool.pc c = .waiting s →
    σ.comp (σ.pool.owner s) = some ed.newComp
  returned : ∀ c entry err, σ.fresh c = true → σ.pool.pc c = .returned (.openOrGet entry err) →
    err ≠ none ∨ ∃ st, entry = some st ∧ σ.openedWith st = some ed.newComp

/-- The edit has failed, or is bound to. -/
structure Barren (r : ConnRegistry B) (σ : EditSys B E) : Prop where
  fresh : ∀ c, σ.fresh c = false
  phase : σ.upd = .failed ∨ σ.upd.Early ∧ σ.registry = r ∧ ¬ ed.Free r.entries

section Resolve

variable {hash yaml src ed} {r : ConnRegistry B} (hinj : EntryIDInjective hash)
  (hk : WellKeyed hash r.entries) (hold : ed.old ∈ r.entries) (hman : ed.old.source = .manual)

include hinj hk hold hman

theorem resolve_before (hfree : ed.Free r.entries) {new : Bool} {y : StoreComponent}
    (h : resolveEntry src r.entries (ed.idOf hash new) = some y) : y = ed.oldComp := by
  obtain ⟨x, hx, hid, hy⟩ := exists_of_resolveEntry h
  have heq : x = ed.old := by
    cases new with
    | false => exact eq_of_id hinj hk hx hold hid
    | true =>
        by_contra hne
        have hnamed := isNamed_of_id hinj hk hx hid
        rw [hfree x hx hne] at hnamed
        cases hnamed
  rw [hy (heq ▸ hman), heq]
  rfl

theorem componentFor_before : componentFor src r.entries ed.old.id = some ed.oldComp := by
  cases hf : r.entries.find? fun e => decide (e.id = ed.old.id) with
  | none => exact absurd (List.find?_eq_none.mp hf ed.old hold) (by simp)
  | some x =>
      have hid : x.id = ed.old.id := by simpa using List.find?_some hf
      have heq := eq_of_id hinj hk (List.mem_of_find?_eq_some hf) hold hid
      unfold componentFor
      rw [hf, heq]
      simp only [Option.map_some, componentForEntry, if_pos hman, translate_manualComponent]
      rfl

omit hman in
/-- An update succeeds only under a name that is free. -/
theorem free_of_ok {env : SaveEnv} (h : (r.apply hash yaml (.update ed.entry) env).1 = none) :
    ed.Free r.entries := by
  obtain ⟨pre, old, post, hl, hid, hnew, -⟩ := update_ok h
  simp only [isManualId, Bool.and_eq_true, decide_eq_true_eq] at hid
  have heq : old = ed.old := eq_of_id hinj hk (by rw [hl]; simp) hold hid.2
  intro x hx hne
  refine hnew x ?_
  rw [hl, heq] at hx
  simp only [List.mem_append, List.mem_cons] at hx ⊢
  tauto

omit hold hman in
theorem resolve_after {env : SaveEnv} (h : (r.apply hash yaml (.update ed.entry) env).1 = none)
    {new : Bool} {y : StoreComponent}
    (hr : resolveEntry src (r.apply hash yaml (.update ed.entry) env).2.entries
      (ed.idOf hash new) = some y) : y = ed.newComp := by
  obtain ⟨pre, old, post, hl, hid, hnew, hafter⟩ := update_ok h
  rw [hafter] at hr
  obtain ⟨x, hx, hxid, hy⟩ := exists_of_resolveEntry hr
  have hmem : x = manualEntry hash env.now ed.entry ∨ x ∈ pre ++ post := by
    simp only [List.mem_append, List.mem_cons] at hx ⊢
    tauto
  rcases hmem with rfl | hx
  · exact hy rfl
  · -- no other entry has one of the two ids
    exfalso
    have hxl : x ∈ r.entries := by
      rw [hl]
      simp only [List.mem_append, List.mem_cons] at hx ⊢
      tauto
    cases new with
    | false =>
        simp only [isManualId, Bool.and_eq_true, decide_eq_true_eq] at hid
        have hkeys := hk.keys
        rw [hl, (List.perm_middle.map _).nodup_iff, List.map_cons, List.nodup_cons] at hkeys
        have heq : x = old := eq_of_id hinj hk hxl (by rw [hl]; simp) (hxid.trans hid.2.symm)
        exact hkeys.1 (List.mem_map_of_mem (heq ▸ hx))
    | true =>
        have hnamed := isNamed_of_id hinj hk hxl hxid
        have hfalse := hnew x hx
        rw [show ed.entry.name = ed.name from rfl, hnamed] at hfalse
        cases hfalse

end Resolve

namespace EditInv

variable {hash yaml src parseURL ed} {r : ConnRegistry B} {σ : EditSys B E}

theorem start (r : ConnRegistry B) :
    EditInv hash src parseURL ed r (EditSys.start r : EditSys B E) := by
  refine ⟨.start r, rfl, fun c x h => ?_, .inl ⟨trivial, rfl⟩, fun o h => ?_, fun op h => ?_,
    fun h => ?_, fun c h => ?_, fun c s h => ?_, fun c entry err h => ?_⟩
  · cases h
  · rcases h with h | h <;> cases h
  · cases h
  · rcases h with h | ⟨h, -⟩ <;> cases h
  · cases h
  · cases h
  · cases h

theorem not_fresh (h : EditInv hash src parseURL ed r σ) (hu : σ.upd ≠ .returned) (c : CallId) :
    σ.fresh c ≠ true := fun hf => hu (h.fresh c hf).1

/-- Once the registry is rewritten, the entry resolves to the new component. -/
theorem resolves_new (h : EditInv hash src parseURL ed r σ) (hl : σ.upd.Late) :
    ∀ new y, resolveEntry src σ.registry.entries (ed.idOf hash new) = some y → y = ed.newComp := by
  rcases h.phase with ⟨he, -⟩ | ⟨-, hnew⟩
  · exact absurd he hl.not_early
  · exact hnew

theorem resolve (h : EditInv hash src parseURL ed r σ)
    (hbefore : ∀ new y, resolveEntry src r.entries (ed.idOf hash new) = some y → y = ed.oldComp)
    {c : CallId} {new b : Bool} {x : StoreComponent} (hc : c ≠ Cmd.updater)
    (hnone : σ.comp c = none) (hp : σ.pool.pc c = .idle)
    (hx : resolveEntry src σ.registry.entries (ed.idOf hash new) = some x)
    (hb : b = true ↔ σ.upd = .returned ∧ ed.idOf hash new = ed.idOf hash true) :
    EditInv hash src parseURL ed r
      { σ with comp := Function.update σ.comp c (some x), fresh := Function.update σ.fresh c b } := by
  have hcomp : ∀ d y, σ.comp d = some y → Function.update σ.comp c (some x) d = some y := by
    intro d y hd
    have hdc : d ≠ c := fun he => by
      rw [he, hnone] at hd
      cases hd
    rw [Function.update_of_ne hdc, hd]
  have hlate : σ.upd.Late → x = ed.newComp := fun hl => h.resolves_new hl new x hx
  have hxs : x = ed.oldComp ∨ x = ed.newComp := by
    rcases h.phase with ⟨-, hr⟩ | ⟨hl, -⟩
    · exact .inl (hbefore new x (hr ▸ hx))
    · exact .inr (hlate hl)
  have hfresh : ∀ d, Function.update σ.fresh c b d = true → d ≠ c → σ.fresh d = true := by
    intro d hd hdc
    rwa [Function.update_of_ne hdc] at hd
  refine ⟨h.ledger.resolve hnone hp x b, ?_, fun d y hd => ?_, h.phase, h.old, h.evict,
    fun hsw s hs => hcomp _ _ (h.swept hsw s hs), fun d hd => ?_, fun d s hd hw => ?_,
    fun d entry err hd hret => ?_⟩
  · exact (Function.update_of_ne hc.symm _ _).trans h.updater
  · by_cases hdc : d = c
    · rw [hdc] at hd
      replace hd : Function.update σ.comp c (some x) c = some y := hd
      rw [Function.update_self] at hd
      cases hd
      exact hxs
    · replace hd : Function.update σ.comp c (some x) d = some y := hd
      rw [Function.update_of_ne hdc] at hd
      exact h.comps d y hd
  · by_cases hdc : d = c
    · rw [hdc] at hd ⊢
      replace hd : Function.update σ.fresh c b c = true := hd
      rw [Function.update_self] at hd
      have hret := (hb.mp hd).1
      refine ⟨hret, ?_⟩
      show Function.update σ.comp c (some x) c = some ed.newComp
      rw [Function.update_self, hlate (by rw [hret]; trivial)]
    · obtain ⟨h1, h2⟩ := h.fresh d (hfresh d hd hdc)
      exact ⟨h1, hcomp d _ h2⟩
  · have hdc : d ≠ c := fun he => by
      rw [he] at hw
      exact absurd (hp.symm.trans hw) (by simp)
    exact hcomp _ _ (h.waiting d s (hfresh d hd hdc) hw)
  · have hdc : d ≠ c := fun he => by
      rw [he] at hret
      exact absurd (hp.symm.trans hret) (by simp)
    exact h.returned d entry err (hfresh d hd hdc) hret

/-- A reader or `UpdateStore` enters the pool. -/
theorem invoke (h : EditInv hash src parseURL ed r σ) {c : CallId} (hp : σ.pool.pc c = .idle)
    {x : StoreComponent} (hx : σ.comp c = some x) :
    EditInv hash src parseURL ed r
      { σ with pool := σ.pool.goto c (.called (.openOrGet (keyOf parseURL x))) } := by
  have hcu : Cmd.updater ≠ c := fun he => by
    rw [← he, h.updater] at hx
    cases hx
  have hpc : ∀ d, d ≠ c →
      (σ.pool.goto c (.called (.openOrGet (keyOf parseURL x)))).pc d = σ.pool.pc d :=
    fun d hd => Function.update_of_ne hd _ _
  have hself : (σ.pool.goto c (.called (.openOrGet (keyOf parseURL x)))).pc c =
      .called (.openOrGet (keyOf parseURL x)) := Function.update_self _ _ _
  have hled := @PoolLedger.invoke B E parseURL σ h.ledger c hp (.openOrGet (keyOf parseURL x))
    (fun id hid => ⟨x, hx, Op.openOrGet.inj hid⟩) σ.upd
  refine ⟨hled, h.updater, h.comps, h.phase, h.old, fun op hop => ?_, fun hsw => ?_, h.fresh,
    fun d s hd hw => ?_, fun d entry err hd hret => ?_⟩
  · rw [hpc _ hcu] at hop
    exact h.evict op hop
  · refine h.swept ?_
    rcases hsw with hr | ⟨hu, hno⟩
    · exact .inl hr
    · refine .inr ⟨hu, fun op hop => hno op ?_⟩
      rw [hpc _ hcu]
      exact hop
  · have hdc : d ≠ c := fun he => by
      rw [he, hself] at hw
      cases hw
    rw [hpc d hdc] at hw
    exact h.waiting d s hd hw
  · have hdc : d ≠ c := fun he => by
      rw [he, hself] at hret
      cases hret
    rw [hpc d hdc] at hret
    exact h.returned d entry err hd hret

/-- **A step of the pool.** -/
theorem pool (h : EditInv hash src parseURL ed r σ) {c : CallId} {p' : Pool Str E}
    (hp : σ.pool.pc c ≠ .idle) (hs : Step σ.pool c p') (hsafe : σ.Safe parseURL ed (.pool c)) :
    EditInv hash src parseURL ed r { σ with pool := p', openedWith := σ.ledgerAfter c p' } := by
  have hled := h.ledger.step hp hs
  have howner : ∀ s, s < σ.pool.nslots → p'.owner s = σ.pool.owner s := fun s =>
    (step_owner hs s).1
  have hkept : ∀ st, σ.openedWith st = some ed.newComp →
      σ.ledgerAfter c p' st = some ed.newComp := by
    intro st hst
    have hlt : st < σ.pool.nstores := by
      refine Nat.lt_of_not_le fun hle => ?_
      rw [h.ledger.unopened st hle] at hst
      cases hst
    rw [PoolLedger.ledgerAfter_of_lt hlt, hst]
  refine ⟨hled, h.updater, h.comps, h.phase, h.old, fun op hop => ?_, fun hsw s hslot => ?_,
    h.fresh, fun d s hd hw => ?_, fun d entry err hd hret => ?_⟩
  · by_cases huc : Cmd.updater = c
    · rw [huc] at hop
      exact absurd (step_called hs hop) hp
    · rw [pc_of_ne hs huc] at hop
      exact h.evict op hop
  · by_cases hold : σ.Swept
    · rcases step_slots hs hslot with hin | ⟨hcall, hnone, -, hown⟩
      · show σ.comp (p'.owner s) = _
        rw [howner s (h.ledger.pool.slots_lt hin)]
        exact h.swept hold s hin
      · obtain ⟨x, hx, -⟩ := h.ledger.called c _ hcall
        show σ.comp (p'.owner s) = _
        rw [hown, hx, hsafe hold x hcall hnone hx]
    · -- this is the step in which `evict` passes its lock
      have hevict : ∃ op, σ.pool.pc Cmd.updater = .called op ∧ Cmd.updater = c := by
        rcases hsw with hr | ⟨hu, hno⟩
        · exact absurd (.inl hr) hold
        · by_contra hne
          refine hold (.inr ⟨hu, fun op hop => hne ⟨op, hop, ?_⟩⟩)
          by_contra huc
          exact hno op ((pc_of_ne hs huc).trans hop)
      obtain ⟨op, hop, huc⟩ := hevict
      have hgone := step_evicted hs (huc ▸ h.evict op hop ▸ hop)
      obtain ⟨x, hx, hkey⟩ := hled.keyed _ s hslot
      rcases h.comps _ x hx with rfl | rfl
      · rw [hkey] at hgone
        exact absurd (hgone.symm.trans hslot) (by simp)
      · exact hx
  · show σ.comp (p'.owner s) = _
    by_cases hdc : d = c
    · subst hdc
      obtain ⟨id, hcall, hin⟩ := step_waiting hs hw
      obtain ⟨x, hx, hkey⟩ := h.ledger.called d id hcall
      obtain ⟨hu, hcomp⟩ := h.fresh d hd
      have hxn : x = ed.newComp := Option.some.inj (hx.symm.trans hcomp)
      rw [howner s (h.ledger.pool.slots_lt hin)]
      refine h.swept (.inl hu) s ?_
      rw [← hxn, hkey]
      exact hin
    · rw [pc_of_ne hs hdc] at hw
      rw [howner s (h.ledger.pool.receives d s (by rw [hw]; rfl))]
      exact h.waiting d s hd hw
  · by_cases hdc : d = c
    · subst hdc
      have hstore : ∀ s, (σ.pool.slot s).store ≠ none →
          σ.comp (σ.pool.owner s) = some ed.newComp → entry = (σ.pool.slot s).entry →
          ∃ st, entry = some st ∧ σ.ledgerAfter d p' st = some ed.newComp := by
        intro s hne hcomp hentry
        obtain ⟨st, hst⟩ := Option.ne_none_iff_exists'.mp hne
        refine ⟨st, by rw [hentry, h.ledger.entry, hst], hkept st ?_⟩
        rw [h.ledger.stored s st hst, hcomp]
      rcases step_returned hs hret with herr | ⟨s, hw, hdone, hentry, herr⟩ | ⟨s, hpub, hentry⟩
      · exact .inl herr
      · by_cases hne : err = none
        · rw [hne] at herr
          exact .inr (hstore s (h.ledger.done s hdone herr.symm) (h.waiting d s hd hw) hentry)
        · exact .inl hne
      · obtain ⟨hown, -⟩ := h.ledger.pool.opener d s (by rw [hpub]; rfl)
        refine .inr (hstore s (h.ledger.publishing d s hpub) ?_ hentry)
        rw [hown]
        exact (h.fresh d hd).2
    · rw [pc_of_ne hs hdc] at hret
      rcases h.returned d entry err hd hret with herr | ⟨st, hentry, hst⟩
      · exact .inl herr
      · exact .inr ⟨st, hentry, hkept st hst⟩

/-- `UpdateStore` goes on, before it has returned. -/
theorem advance (h : EditInv hash src parseURL ed r σ) {u : UpdPc} {reg : ConnRegistry B}
    (hu : σ.upd ≠ .returned) (hsw : ¬ (u = .returned ∨ u = .evicting))
    (hphase : u.Early ∧ reg = r ∨
      u.Late ∧ ∀ new y, resolveEntry src reg.entries (ed.idOf hash new) = some y → y = ed.newComp)
    (hold : ∀ o, u = .found o ∨ u = .stored o → o = some ed.oldComp) :
    EditInv hash src parseURL ed r { σ with registry := reg, upd := u } := by
  have hled := h.ledger
  refine ⟨⟨hled.pool, hled.entry, hled.done, hled.publishing, hled.unopened, hled.hand,
    hled.stored, hled.owned, hled.called, hled.keyed⟩, h.updater, h.comps, hphase, hold, h.evict,
    fun hs => ?_, fun c hc => absurd hc (h.not_fresh hu c),
    fun c s hc => absurd hc (h.not_fresh hu c), fun c entry err hc => absurd hc (h.not_fresh hu c)⟩
  rcases hs with hs | ⟨hs, -⟩
  · exact absurd (.inl hs) hsw
  · exact absurd (.inr hs) hsw

theorem evictStep (h : EditInv hash src parseURL ed r σ) {x : StoreComponent}
    (hu : σ.upd = .stored (some x)) (hp : σ.pool.pc Cmd.updater = .idle) :
    EditInv hash src parseURL ed r
      { σ with
        pool := σ.pool.goto Cmd.updater (.called (.evict (keyOf parseURL x)))
        upd := .evicting } := by
  have hne : σ.upd ≠ .returned := by
    rw [hu]
    simp
  have hself : (σ.pool.goto Cmd.updater (.called (.evict (keyOf parseURL x)))).pc Cmd.updater =
      .called (.evict (keyOf parseURL x)) := by simp [Pool.goto]
  have hled := @PoolLedger.invoke B E parseURL σ h.ledger Cmd.updater hp (.evict (keyOf parseURL x))
    (fun id hid => by cases hid) .evicting
  refine ⟨hled, h.updater, h.comps, ?_, fun o ho => ?_, fun op hop => ?_, fun hs => ?_,
    fun c hc => absurd hc (h.not_fresh hne c), fun c s hc => absurd hc (h.not_fresh hne c),
    fun c entry err hc => absurd hc (h.not_fresh hne c)⟩
  · exact .inr ⟨trivial, h.resolves_new (by rw [hu]; trivial)⟩
  · rcases ho with ho | ho <;> cases ho
  · rw [hself] at hop
    have hx := Option.some.inj (h.old _ (.inr hu))
    rw [← Pc.called.inj hop, hx]
  · rcases hs with hs | ⟨-, hs⟩
    · cases hs
    · exact absurd hself (hs _)

theorem finishStep (h : EditInv hash src parseURL ed r σ) (hu : σ.upd = .evicting)
    (hp : σ.pool.pc Cmd.updater = .returned .evict) :
    EditInv hash src parseURL ed r { σ with upd := .returned } := by
  have hne : σ.upd ≠ .returned := by
    rw [hu]
    simp
  have hled := h.ledger
  refine ⟨⟨hled.pool, hled.entry, hled.done, hled.publishing, hled.unopened, hled.hand,
    hled.stored, hled.owned, hled.called, hled.keyed⟩, h.updater, h.comps, ?_, fun o ho => ?_,
    h.evict, fun _ => h.swept (.inr ⟨hu, fun op hop => ?_⟩),
    fun c hc => absurd hc (h.not_fresh hne c), fun c s hc => absurd hc (h.not_fresh hne c),
    fun c entry err hc => absurd hc (h.not_fresh hne c)⟩
  · exact .inr ⟨trivial, h.resolves_new (by rw [hu]; trivial)⟩
  · rcases ho with ho | ho <;> cases ho
  · exact absurd (hp.symm.trans hop) (by simp)

end EditInv

section Run

variable {hash yaml src parseURL ed} {r : ConnRegistry B} {σ σ' : EditSys B E} {a : EditAct}
  (hinj : EntryIDInjective hash) (hk : WellKeyed hash r.entries) (hold : ed.old ∈ r.entries)
  (hman : ed.old.source = .manual)

include hinj hk hold

theorem Barren.step (h : Barren ed r σ) (hs : EditStep hash yaml src parseURL ed σ a σ') :
    Barren ed r σ' := by
  have hno : σ.upd = .failed ∨ σ.upd.Early → σ.upd.Late → False := by
    intro hu hl
    rcases hu with hu | hu
    · rw [hu] at hl
      exact hl
    · exact hl.not_early hu
  have hearly : σ.upd.Late → False := hno (h.phase.imp_right And.left)
  cases hs with
  | resolve c new x b hc hnone hp hx hb =>
      refine ⟨fun d => ?_, h.phase⟩
      have hbf : b = false := by
        rw [← Bool.not_eq_true]
        exact fun hbt => hearly (by rw [(hb.mp hbt).1]; trivial)
      by_cases hdc : d = c
      · subst hdc
        exact (Function.update_self _ _ _).trans hbf
      · exact (Function.update_of_ne hdc _ _).trans (h.fresh d)
  | enter => exact ⟨h.fresh, h.phase⟩
  | pool => exact ⟨h.fresh, h.phase⟩
  | lookup hu =>
      refine ⟨h.fresh, .inr ?_⟩
      rcases h.phase with hf | ⟨-, hr, hfree⟩
      · rw [hu] at hf
        cases hf
      · exact ⟨trivial, hr, hfree⟩
  | storeOk old env hu hok =>
      rcases h.phase with hf | ⟨-, hr, hfree⟩
      · rw [hu] at hf
        cases hf
      · rw [hr] at hok
        exact absurd (free_of_ok hinj hk hold hok) hfree
  | storeErr => exact ⟨h.fresh, .inl rfl⟩
  | evict x hu => exact (hearly (by rw [hu]; trivial)).elim
  | skip hu => exact (hearly (by rw [hu]; trivial)).elim
  | finish hu => exact (hearly (by rw [hu]; trivial)).elim

include hman

/-- **One safe step.** -/
theorem EditInv.step (hfree : ed.Free r.entries) (h : EditInv hash src parseURL ed r σ)
    (hsafe : σ.Safe parseURL ed a) (hs : EditStep hash yaml src parseURL ed σ a σ') :
    Barren ed r σ' ∨ EditInv hash src parseURL ed r σ' := by
  cases hs with
  | resolve c new x b hc hnone hp hx hb =>
      exact .inr (h.resolve (fun new y hy => resolve_before hinj hk hold hman hfree hy) hc hnone hp
        hx hb)
  | enter c x hx hp => exact .inr (h.invoke hp hx)
  | pool c p' hp hs => exact .inr (h.pool hp hs hsafe)
  | lookup hu =>
      have hr : σ.registry = r := by
        rcases h.phase with ⟨-, hr⟩ | ⟨hl, -⟩
        · exact hr
        · rw [hu] at hl
          exact hl.elim
      refine .inr (h.advance (by rw [hu]; simp) (by simp) (.inl ⟨trivial, hr⟩) fun o ho => ?_)
      rcases ho with ho | ho
      · rw [← UpdPc.found.inj ho, hr]
        exact componentFor_before hinj hk hold hman
      · cases ho
  | storeOk old env hu hok =>
      have hr : σ.registry = r := by
        rcases h.phase with ⟨-, hr⟩ | ⟨hl, -⟩
        · exact hr
        · rw [hu] at hl
          exact hl.elim
      refine .inr (h.advance (by rw [hu]; simp) (by simp) (.inr ⟨trivial, fun new y hy => ?_⟩)
        fun o ho => ?_)
      · rw [hr] at hok hy
        exact resolve_after hinj hk hok hy
      · rcases ho with ho | ho
        · cases ho
        · exact UpdPc.stored.inj ho ▸ h.old old (.inl hu)
  | storeErr old env err hu herr =>
      refine .inl ⟨fun c => ?_, .inl rfl⟩
      rw [← Bool.not_eq_true]
      exact h.not_fresh (by rw [hu]; simp) c
  | evict x hu hp => exact .inr (h.evictStep hu hp)
  | skip hu => exact absurd (h.old none (.inr hu)) (by simp)
  | finish hu hp => exact .inr (h.finishStep hu hp)

/-- **No stale connection after an edit**, in every run whose steps are safe: a call on the new id
    that was made after `UpdateStore` had returned fails to open, or gets a store that was opened
    with the new metadata. -/
theorem edit_serves_new {l : List (EditSys B E × EditAct)}
    (h : Trace (EditStep hash yaml src parseURL ed) (EditSys.start r) l σ)
    (hsafe : ∀ p ∈ l, p.1.Safe parseURL ed p.2) {c : CallId} (hc : σ.fresh c = true)
    {entry : Option StoreId} {err : Option (PoolErr E)}
    (hret : σ.pool.pc c = .returned (.openOrGet entry err)) :
    err ≠ none ∨ ∃ st x, entry = some st ∧ σ.openedWith st = some x ∧
      x.metadata = ed.metadata.dict := by
  have hinv : Barren ed r σ ∨ EditInv hash src parseURL ed r σ := by
    by_cases hfree : ed.Free r.entries
    · have hstart : EditInv hash src parseURL ed r (EditSys.start r : EditSys B E) := .start r
      refine Trace.inv_of (I := fun τ => Barren ed r τ ∨ EditInv hash src parseURL ed r τ)
        (C := fun τ b => τ.Safe parseURL ed b) (.inr hstart) (fun τ b τ' hI hC hs => ?_) h hsafe
      rcases hI with hI | hI
      · exact .inl (hI.step hinj hk hold hs)
      · exact hI.step hinj hk hold hman hfree hC hs
    · have hstart : Barren ed r (EditSys.start r : EditSys B E) :=
        ⟨fun _ => rfl, .inr ⟨trivial, rfl, hfree⟩⟩
      exact .inl (Trace.inv hstart (fun τ b τ' hI hs => hI.step hinj hk hold hs) h)
  rcases hinv with hinv | hinv
  · rw [hinv.fresh c] at hc
    cases hc
  · rcases hinv.returned c entry err hc hret with herr | ⟨st, hentry, hst⟩
    · exact .inl herr
    · exact .inr ⟨st, ed.newComp, hentry, hst, rfl⟩

end Run

end System

/-! ## 6. A new password -/

def pgName : Str := "pg".toList

/-- A redis connection with this password. -/
def redisMetadata (password : Char) : Metadata where
  entries :=
    [(.redisHost, "db:6379".toList),
      (.other "redisPassword".toList, [password])]
  nodup := by simp

/-- The connection `pg` gets a new password. -/
def newPassword : Edit where
  old :=
    { id := entryID digest .manual pgName, name := pgName, type := .redis, source := .manual
      metadata := redisMetadata 'a' }
  name := pgName
  type := .redis
  metadata := redisMetadata 'b'

def pgRegistry : ConnRegistry (List ConnEntry) := ⟨[newPassword.old], none⟩

theorem wellKeyed_pgRegistry : WellKeyed digest pgRegistry.entries := by
  refine ⟨fun e he => ?_, fun e he => ?_, List.nodup_singleton _⟩
  · rw [List.mem_singleton.mp he]
    trivial
  · rw [List.mem_singleton.mp he]
    rfl

/-- The steps of this run. -/
abbrev PgStep := EditStep (E := Unit) digest plainYaml (plainSources []) (fun _ => none) newPassword

theorem found_old : componentFor (plainSources []) pgRegistry.entries newPassword.old.id =
    some newPassword.oldComp := by decide +kernel

/-- A call resolves the connection, then `UpdateStore` runs from beginning to end, and then the
    call opens what it has resolved: the password is no part of the key. A call made after all that
    gets this store. -/
theorem stale_after_edit :
    ∃ (l : List (EditSys (List ConnEntry) Unit × EditAct)) (σ : EditSys (List ConnEntry) Unit),
      Trace PgStep (EditSys.start pgRegistry) l σ ∧ σ.fresh 2 = true ∧
      ∃ st x, σ.pool.pc 2 = .returned (.openOrGet (some st) none) ∧ σ.openedWith st = some x ∧
        x.metadata ≠ newPassword.metadata.dict := by
  have h := (Trace.start : Trace PgStep (EditSys.start pgRegistry) [] (EditSys.start pgRegistry))
    |>.next (.resolve _ 1 false newPassword.oldComp false (by decide) rfl rfl (by decide +kernel)
      (by simp [EditSys.start]))
    |>.next (.lookup _ rfl)
    |>.next (.storeOk _ _ (calm 1) rfl (by decide +kernel))
    |>.next (.evict _ newPassword.oldComp (congrArg UpdPc.stored found_old) rfl)
    |>.next (.pool _ 0 _ (by decide) (.evictMiss _ 0 _ rfl rfl))
    |>.next (.finish _ rfl rfl)
    |>.next (.enter _ 1 newPassword.oldComp rfl rfl)
    |>.next (.pool _ 1 _ (by decide) (.make _ 1 _ rfl rfl rfl))
    |>.next (.pool _ 1 _ (by decide) (.openOk _ 1 _ 0 rfl))
    |>.next (.pool _ 1 _ (by decide) (.recheckOk _ 1 _ 0 0 rfl rfl rfl))
    |>.next (.pool _ 1 _ (by decide) (.publish _ 1 0 0 rfl))
    |>.next (.pool _ 1 _ (by decide) (.finishPublish _ 1 0 rfl))
    |>.next (.resolve _ 2 true newPassword.newComp true (by decide) rfl rfl (by decide +kernel)
      (by simp))
    |>.next (.enter _ 2 newPassword.newComp rfl rfl)
    |>.next (.pool _ 2 _ (by decide) (.find _ 2 _ 0 rfl rfl rfl))
    |>.next (.pool _ 2 _ (by decide) (.awake _ 2 0 rfl rfl))
  exact ⟨_, _, h, rfl, 0, newPassword.oldComp, rfl, rfl, by decide +kernel⟩

/-- The steps of this run that are safe. -/
abbrev SafePgStep (σ : EditSys (List ConnEntry) Unit) (a : EditAct)
    (σ' : EditSys (List ConnEntry) Unit) : Prop :=
  PgStep σ a σ' ∧ σ.Safe (fun _ => none) newPassword a

/-- The same edit beside a call that opens the old store, whose slot `evict` takes out and waits
    for; and a call made after it. -/
theorem run_beside_edit :
    ∃ (l : List (EditSys (List ConnEntry) Unit × EditAct)) (σ : EditSys (List ConnEntry) Unit),
      Trace SafePgStep (EditSys.start pgRegistry) l σ ∧ σ.fresh 2 = true ∧
      σ.pool.pc 1 = .returned (.openOrGet (some 0) none) ∧
      σ.openedWith 0 = some newPassword.oldComp ∧
      σ.pool.pc 2 = .returned (.openOrGet (some 1) none) := by
  have h := (Trace.start : Trace SafePgStep (EditSys.start pgRegistry) []
      (EditSys.start pgRegistry))
    |>.next ⟨.resolve _ 1 false newPassword.oldComp false (by decide) rfl rfl (by decide +kernel)
      (by simp [EditSys.start]), trivial⟩
    |>.next ⟨.lookup _ rfl, trivial⟩
    |>.next ⟨.enter _ 1 newPassword.oldComp rfl rfl, trivial⟩
    |>.next ⟨.pool _ 1 _ (by decide) (.make _ 1 _ rfl rfl rfl),
      fun h => h.elim (fun h => nomatch h) fun h => nomatch h.1⟩
    |>.next ⟨.pool _ 1 _ (by decide) (.openOk _ 1 _ 0 rfl), fun _ _ hp => nomatch hp⟩
    |>.next ⟨.storeOk _ _ (calm 1) rfl (by decide +kernel), trivial⟩
    |>.next ⟨.evict _ newPassword.oldComp (congrArg UpdPc.stored found_old) rfl, trivial⟩
    |>.next ⟨.pool _ 1 _ (by decide) (.recheckOk _ 1 _ 0 0 rfl rfl rfl), fun _ _ hp => nomatch hp⟩
    |>.next ⟨.pool _ 0 _ (by decide) (.evictTake _ 0 _ 0 rfl rfl), fun _ _ _ _ hx => nomatch hx⟩
    |>.next ⟨.pool _ 1 _ (by decide) (.publish _ 1 0 0 rfl), fun _ _ hp => nomatch hp⟩
    |>.next ⟨.pool _ 1 _ (by decide) (.finishPublish _ 1 0 rfl), fun _ _ hp => nomatch hp⟩
    |>.next ⟨.pool _ 0 _ (by decide) (.evictClose _ 0 0 rfl rfl), fun _ _ _ _ hx => nomatch hx⟩
    |>.next ⟨.finish _ rfl rfl, trivial⟩
    |>.next ⟨.resolve _ 2 true newPassword.newComp true (by decide) rfl rfl (by decide +kernel)
      (by simp), trivial⟩
    |>.next ⟨.enter _ 2 newPassword.newComp rfl rfl, trivial⟩
    |>.next ⟨.pool _ 2 _ (by decide) (.make _ 2 _ rfl rfl rfl),
      fun _ _ _ _ hx => (Option.some.inj hx).symm⟩
    |>.next ⟨.pool _ 2 _ (by decide) (.openOk _ 2 _ 1 rfl),
      fun _ _ _ _ hx => (Option.some.inj hx).symm⟩
    |>.next ⟨.pool _ 2 _ (by decide) (.recheckOk _ 2 _ 1 1 rfl rfl rfl),
      fun _ _ _ _ hx => (Option.some.inj hx).symm⟩
    |>.next ⟨.pool _ 2 _ (by decide) (.publish _ 2 1 1 rfl),
      fun _ _ _ _ hx => (Option.some.inj hx).symm⟩
    |>.next ⟨.pool _ 2 _ (by decide) (.finishPublish _ 2 1 rfl),
      fun _ _ _ _ hx => (Option.some.inj hx).symm⟩
  exact ⟨_, _, h, rfl, rfl, rfl, rfl⟩

theorem edit_serves_new_after :
    ∃ (l : List (EditSys (List ConnEntry) Unit × EditAct)) (σ : EditSys (List ConnEntry) Unit),
      Trace PgStep (EditSys.start pgRegistry) l σ ∧
      (σ.pool.pc 1 = .returned (.openOrGet (some 0) none) ∧
        σ.openedWith 0 = some newPassword.oldComp) ∧
      σ.fresh 2 = true ∧
      ∃ st x, σ.pool.pc 2 = .returned (.openOrGet (some st) none) ∧ σ.openedWith st = some x ∧
        x.metadata = newPassword.metadata.dict := by
  obtain ⟨l, σ, h, hfresh, hret₁, hold, hret⟩ := run_beside_edit
  obtain ⟨htrace, hsafe⟩ := h.of_restrict
  refine ⟨l, σ, htrace, ⟨hret₁, hold⟩, hfresh, ?_⟩
  rcases edit_serves_new entryIDInjective_digest wellKeyed_pgRegistry
    (List.mem_singleton_self _) rfl htrace hsafe hfresh hret with herr | ⟨st, x, hst, hx, hmeta⟩
  · exact absurd rfl herr
  · exact ⟨st, x, hst ▸ hret, hx, hmeta⟩

end DevDashboard.Cmd
