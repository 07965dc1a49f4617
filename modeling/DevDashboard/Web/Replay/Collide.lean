/-
  File:      DevDashboard/Web/Replay/Collide.lean
  Subject:   WHAT COLLISIONS LEAVE ALONE, AND WHAT THEY ASK FOR.

  A pass over the tracks goes from entity to entity; `Touched` says what one stretch of it may
  have done, and stretches compose (`Touched.trans`):

  * of the state, only rolls, score, shield, boost, grace and status may change (`Met`);
  * an entity keeps everything but `taken`, and what is taken stays taken;
  * the pick-ups among the events are, in order, what was asked for (`Asked`);
  * what was picked up and what is still free was free before.

  `collide_gives` is the result for all tracks.
-/
import Mathlib.Algebra.Order.Group.Multiset
import DevDashboard.Web.Replay.Step

namespace DevDashboard.Web.Replay

open Lib Asking

variable {A : Arith} {cfg : LevelConfig}

/-! ## 1. Relations -/

/-- What a pass may change of the state besides the tracks. -/
structure Met (s s' : GameState) : Prop where
  frame : ∃ rng score shield multiplier multUntil graceUntil failedAt status,
    s' = { s with rng, score, shield, multiplier, multUntil, graceUntil, failedAt, status }
  status : (s'.status = s.status ∧ s'.failedAt = s.failedAt) ∨
    s.status = .running ∧ (s'.status = .failed ∨
      s'.status = .retry ∧ s'.failedAt = s.tick ∧ 0 < s.retries)
  /-- In grace nothing happens to the status, and grace does not end. -/
  grace : s.tick < s.graceUntil → s'.status = s.status ∧ s.tick < s'.graceUntil

theorem Met.refl (s : GameState) : Met s s where
  frame := ⟨_, _, _, _, _, _, _, _, rfl⟩
  status := .inl ⟨rfl, rfl⟩
  grace h := ⟨rfl, h⟩

theorem Met.trans {s s' s'' : GameState} (h : Met s s') (h' : Met s' s'') : Met s s'' := by
  obtain ⟨a, b, c, d, e, f, g, i, rfl⟩ := h.frame
  obtain ⟨a', b', c', d', e', f', g', i', rfl⟩ := h'.frame
  refine ⟨⟨a', b', c', d', e', f', g', i', rfl⟩, ?_, ?_⟩
  · have h1 := h.status
    have h2 := h'.status
    simp only at h1 h2 ⊢
    rcases h1 with ⟨rfl, rfl⟩ | ⟨hr, h1⟩
    · exact h2
    · refine .inr ⟨hr, ?_⟩
      have hne : i ≠ .running := by
        rcases h1 with rfl | ⟨rfl, _⟩ <;> simp
      rcases h2 with ⟨rfl, rfl⟩ | ⟨hi, _⟩
      · exact h1
      · exact absurd hi hne
  · intro hg
    have h1 := h.grace hg
    have h2 := h'.grace h1.2
    exact ⟨h2.1.trans h1.1, h2.2⟩

/-- An entity keeps everything but `taken`, and what is taken stays so. -/
def SameEntity (e e' : Entity) : Prop := (∃ taken, e' = { e with taken }) ∧ (e.taken → e'.taken)

theorem SameEntity.refl (e : Entity) : SameEntity e e := ⟨⟨e.taken, rfl⟩, id⟩

theorem forall₂_sameEntity_refl (es : List Entity) : List.Forall₂ SameEntity es es :=
  List.forall₂_same.mpr fun e _ => .refl e

/-- The ids of what is not taken. -/
def freeIn (es : List Entity) : List ℕ := (es.filter fun e => !e.taken).map Entity.id

theorem freeIn_append (es fs : List Entity) : freeIn (es ++ fs) = freeIn es ++ freeIn fs := by
  simp [freeIn]

/-- The id of an orb or a crate. -/
def Outcome.pick? : Outcome → Option ℕ
  | .orbTaken id => some id
  | .activityCrateCollected id _ => some id
  | _ => none

/-- The ids of the orbs and crates, in order. -/
def pickIds (evs : List Outcome) : List ℕ := evs.filterMap Outcome.pick?

theorem pickIds_append (evs evs' : List Outcome) :
    pickIds (evs ++ evs') = pickIds evs ++ pickIds evs' := List.filterMap_append

/-- `Asked evs tr`: the transcript of a stretch with these events. An orb asks `impure`, a crate
    asks for its result and reports it, and nothing else asks. -/
inductive Asked : List Outcome → List (Port × ℚ) → Prop where
  | nil : Asked [] []
  | orb (id : ℕ) (v : ℚ) {evs : List Outcome} {tr : List (Port × ℚ)} (h : Asked evs tr) :
      Asked (.orbTaken id :: evs) ((.impure, v) :: tr)
  | crate (id : ℕ) (v : ℚ) {evs : List Outcome} {tr : List (Port × ℚ)} (h : Asked evs tr) :
      Asked (.activityCrateCollected id v :: evs) ((.crateValue id, v) :: tr)
  | other {ev : Outcome} (hev : ev.pick? = none) {evs : List Outcome} {tr : List (Port × ℚ)}
      (h : Asked evs tr) : Asked (ev :: evs) tr

theorem Asked.append {evs evs' : List Outcome} {tr tr' : List (Port × ℚ)} (h : Asked evs tr)
    (h' : Asked evs' tr') : Asked (evs ++ evs') (tr ++ tr') := by
  induction h with
  | nil => exact h'
  | orb id v _ ih => exact .orb id v ih
  | crate id v _ ih => exact .crate id v ih
  | other hev _ ih => exact .other hev ih

/-- What a stretch of a pass over the entities `es` may have done, with the transcript `tr`. -/
structure Touched (c : Pass) (es : List Entity) (tr : List (Port × ℚ)) (c' : Pass)
    (es' : List Entity) : Prop where
  met : Met c.s c'.s
  /-- Only a hit changes the status. -/
  hits : (c.hitDone = false → c.s.status = .running) → c'.hitDone = false → c'.s.status = .running
  same : List.Forall₂ SameEntity es es'
  events : ∃ evs, c'.events = c.events ++ evs ∧ Asked evs tr ∧
    (pickIds evs + freeIn es' : Multiset ℕ) ≤ freeIn es

theorem Touched.refl (c : Pass) (es : List Entity) : Touched c es [] c es where
  met := .refl _
  hits h := h
  same := forall₂_sameEntity_refl es
  events := ⟨[], (List.append_nil _).symm, .nil, (zero_add _).le⟩

theorem Touched.trans {c c' c'' : Pass} {es es' fs fs' : List Entity} {tr tr' : List (Port × ℚ)}
    (h : Touched c es tr c' es') (h' : Touched c' fs tr' c'' fs') :
    Touched c (es ++ fs) (tr ++ tr') c'' (es' ++ fs') := by
  obtain ⟨evs, hev, hask, hids⟩ := h.events
  obtain ⟨evs', hev', hask', hids'⟩ := h'.events
  refine ⟨h.met.trans h'.met, h'.hits ∘ h.hits, List.rel_append h.same h'.same, evs ++ evs', ?_, hask.append hask', ?_⟩
  · rw [hev', hev, List.append_assoc]
  · have hsum := add_le_add hids hids'
    rw [add_add_add_comm] at hsum
    simpa only [pickIds_append, freeIn_append, ← Multiset.coe_add] using hsum

/-! ## 2. One entity -/

theorem resolveHit_met (s : GameState) (hs : s.status = .running) (pit : Bool) (id : ℕ) :
    Met s (resolveHit cfg s pit id).s := by
  unfold resolveHit
  split
  · exact .refl s
  · rename_i hgrace
    split
    · exact ⟨⟨_, _, _, _, _, _, _, _, rfl⟩, .inl ⟨rfl, rfl⟩, fun h => absurd h hgrace⟩
    · split
      · exact ⟨⟨_, _, _, _, _, _, _, _, rfl⟩, .inl ⟨rfl, rfl⟩, fun h => absurd h hgrace⟩
      · split
        · rename_i hretries
          exact ⟨⟨_, _, _, _, _, _, _, _, rfl⟩, .inr ⟨hs, .inr ⟨rfl, rfl, hretries⟩⟩,
            fun h => absurd h hgrace⟩
        · exact ⟨⟨_, _, _, _, _, _, _, _, rfl⟩, .inr ⟨hs, .inl rfl⟩, fun h => absurd h hgrace⟩

/-- A pass that only hit something: nothing was asked, nothing picked up. -/
theorem Touched.of_met {c c' : Pass} {evs : List Outcome} (h : Met c.s c'.s)
    (hdone : c'.hitDone = true) (hev : c'.events = c.events ++ evs) (hpick : ∀ ev ∈ evs, ev.pick? = none) {es es' : List Entity}
    (hsame : List.Forall₂ SameEntity es es') (hfree : (freeIn es' : Multiset ℕ) ≤ freeIn es) :
    Touched c es [] c' es' := by
  have hask : ∀ evs : List Outcome, (∀ ev ∈ evs, ev.pick? = none) →
      Asked evs [] ∧ pickIds evs = [] := by
    intro evs hevs
    induction evs with
    | nil => exact ⟨.nil, rfl⟩
    | cons ev evs ih =>
        have hev := hevs ev List.mem_cons_self
        obtain ⟨h1, h2⟩ := ih fun e he => hevs e (List.mem_cons_of_mem _ he)
        exact ⟨.other hev h1, by rw [pickIds, List.filterMap_cons_none hev]; exact h2⟩
  refine ⟨h, fun _ hc => absurd (hc.symm.trans hdone) (by decide), hsame, evs, hev,
    (hask evs hpick).1, ?_⟩
  rw [(hask evs hpick).2]
  exact (zero_add _).le.trans hfree

theorem resolveHit_events (s : GameState) (pit : Bool) (id : ℕ) :
    ∀ ev ∈ (resolveHit cfg s pit id).events, ev.pick? = none := by
  unfold resolveHit
  intro ev hev
  split at hev
  · exact absurd hev List.not_mem_nil
  · split at hev
    · rw [List.mem_singleton.mp hev]
      rfl
    · split at hev
      · rw [List.mem_singleton.mp hev]
        rfl
      · split at hev <;> exact absurd hev List.not_mem_nil

/-- **A pick-up** asks once and reports it. -/
theorem pickup_touched {e : Entity} (he : e.taken = false) (c : Pass) {tr : List (Port × ℚ)}
    {c' : Pass} (h : (pickup cfg e c).Gives tr c') :
    Touched c [e] tr c' [{ e with taken := true }] := by
  have hsame : List.Forall₂ SameEntity [e] [{ e with taken := true }] :=
    .cons ⟨⟨true, rfl⟩, fun _ => rfl⟩ .nil
  have hfree : freeIn [e] = [e.id] := by simp [freeIn, he]
  have hfree' : freeIn [{ e with taken := true }] = [] := rfl
  have hmet : ∀ rng score shield multiplier multUntil,
      Met c.s { c.s with rng, score, shield, multiplier, multUntil } := fun _ _ _ _ _ =>
    ⟨⟨_, _, _, _, _, _, _, _, rfl⟩, .inl ⟨rfl, rfl⟩, fun h => ⟨rfl, h⟩⟩
  unfold pickup at h
  split at h
  · obtain ⟨rfl, rfl⟩ := gives_done.mp h
    refine ⟨hmet _ _ _ _ _, id, hsame, _, rfl, .other rfl .nil, ?_⟩
    rw [hfree, hfree']
    exact Multiset.zero_le _
  · obtain ⟨v, tl, rfl, hv⟩ := gives_ask.mp h
    obtain ⟨rfl, rfl⟩ := gives_done.mp hv
    refine ⟨hmet _ _ _ _ _, id, hsame, _, rfl, .orb e.id v .nil, ?_⟩
    rw [hfree, hfree']
    exact (add_zero _).le
  · obtain ⟨v, tl, rfl, hv⟩ := gives_ask.mp h
    obtain ⟨rfl, rfl⟩ := gives_done.mp hv
    refine ⟨hmet _ _ _ _ _, id, hsame, _, rfl, .crate e.id v .nil, ?_⟩
    rw [hfree, hfree']
    exact (add_zero _).le

theorem touch_touched {box hazardBox : Box} {e : Entity} {coins : ℕ} {c : Pass}
    {tr : List (Port × ℚ)} {r : Pass × ℕ × Entity}
    (h : (touch A cfg box hazardBox e coins c).Gives tr r) :
    Touched c [e] tr r.1 [r.2.2] := by
  have hstay : tr = [] → r = (c, coins, e) → Touched c [e] tr r.1 [r.2.2] := by
    rintro rfl rfl
    exact .refl c [e]
  unfold touch at h
  by_cases hrun : c.s.status ≠ .running
  · rw [if_pos hrun, gives_done] at h
    exact hstay h.1 h.2
  rw [if_neg hrun] at h
  by_cases hskip : e.taken ∨ e.kind = .pit ∨ e.kind = .fanout
  · rw [if_pos hskip, gives_done] at h
    exact hstay h.1 h.2
  rw [if_neg hskip] at h
  have htaken : e.taken = false := by simpa using fun ht => hskip (.inl ht)
  by_cases hover : overlaps A (if e.kind ∈ racks then hazardBox else box) ⟨e.x, e.y, e.w, e.h⟩ = false
  · rw [if_pos hover, gives_done] at h
    exact hstay h.1 h.2
  rw [if_neg hover] at h
  by_cases hrack : e.kind ∈ racks
  · rw [if_pos hrack] at h
    by_cases hdone : c.hitDone
    · rw [if_pos hdone, gives_done] at h
      exact hstay h.1 h.2
    -- A rack is hit, and smashed at most.
    rw [if_neg hdone] at h
    obtain ⟨rfl, rfl⟩ := gives_done.mp h
    refine .of_met (resolveHit_met c.s (not_not.mp hrun) false e.id) rfl rfl (resolveHit_events _ _ _)
      (.cons ⟨⟨_, rfl⟩, fun ht => by simp [htaken] at ht⟩ .nil) ?_
    cases hs : (resolveHit cfg c.s false e.id).taken <;> simp [freeIn, htaken]
  · rw [if_neg hrack] at h
    obtain ⟨t, u, c', rfl, hc, hr⟩ := gives_bind.mp h
    obtain ⟨rfl, rfl⟩ := gives_done.mp hr
    rw [List.append_nil]
    exact pickup_touched htaken c hc

/-! ## 3. The tracks -/

theorem meet_touched {box hazardBox : Box} {es : List Entity} {coins : ℕ} {c : Pass}
    {tr : List (Port × ℚ)} {r : Pass × ℕ × List Entity}
    (h : (meet A cfg box hazardBox es coins c).Gives tr r) : Touched c es tr r.1 r.2.2 := by
  induction es generalizing coins c tr r with
  | nil =>
      obtain ⟨rfl, rfl⟩ := gives_done.mp h
      exact .refl c []
  | cons e es ih =>
      obtain ⟨t, u, x, rfl, hx, h⟩ := gives_bind.mp h
      obtain ⟨u, w, y, rfl, hy, h⟩ := gives_bind.mp h
      obtain ⟨rfl, rfl⟩ := gives_done.mp h
      rw [List.append_nil]
      exact (touch_touched hx).trans (ih hy)

theorem meetTrack_touched {p : Player} {es : List Entity} {coins : ℕ} {c : Pass}
    (hc : c.hitDone = false → c.s.status = .running)
    {tr : List (Port × ℚ)} {r : Pass × Player × ℕ × List Entity}
    (h : (meetTrack A cfg p es coins c).Gives tr r) : Touched c es tr r.1 r.2.2.2 := by
  unfold meetTrack at h
  obtain ⟨t, u, x, rfl, hx, h⟩ := gives_bind.mp h
  obtain ⟨rfl, rfl⟩ := gives_done.mp h
  rw [List.append_nil]
  have hpit : ∀ {c' : Pass} {fs' : List Entity}, Touched c [] [] c' [] → Touched c' es t x.1 fs' →
      Touched c es t x.1 fs' := fun h h' => h.trans h'
  refine hpit ?_ (meet_touched hx)
  split
  · rename_i hpit
    exact .of_met (resolveHit_met c.s (hc hpit.1) true 0) rfl rfl
      (resolveHit_events _ _ _) .nil le_rfl
  · exact .refl c []

theorem meetLanes_touched {lanes : List Lane} {c : Pass}
    (hc : c.hitDone = false → c.s.status = .running) {tr : List (Port × ℚ)} {r : Pass × List Lane}
    (h : (meetLanes A cfg lanes c).Gives tr r) :
    Touched c (lanes.flatMap Lane.entities) tr r.1 (r.2.flatMap Lane.entities) := by
  induction lanes generalizing c tr r with
  | nil =>
      obtain ⟨rfl, rfl⟩ := gives_done.mp h
      exact .refl c []
  | cons lane lanes ih =>
      obtain ⟨t, u, x, rfl, hx, h⟩ := gives_bind.mp h
      obtain ⟨u, w, y, rfl, hy, h⟩ := gives_bind.mp h
      obtain ⟨rfl, rfl⟩ := gives_done.mp h
      have hx := meetTrack_touched hc hx
      rw [List.append_nil]
      exact hx.trans (ih (hx.hits hc) hy)

/-- The entities of all tracks. -/
def allEntities (s : GameState) : List Entity :=
  s.entities ++ s.fan.elim [] fun fan => fan.lanes.flatMap Lane.entities

/-- The ids of what nobody has taken. -/
def freeIds (s : GameState) : List ℕ := freeIn (allEntities s)

/-- The place and width of the gates among the entities. -/
def gatesIn (es : List Entity) : List (ℚ × ℚ) :=
  (es.filter fun e => e.kind = .fanout).map fun e => (e.x, e.w)

theorem gatesIn_append (es fs : List Entity) : gatesIn (es ++ fs) = gatesIn es ++ gatesIn fs := by
  simp [gatesIn]

theorem gatesIn_same {es es' : List Entity} (h : List.Forall₂ SameEntity es es') :
    gatesIn es' = gatesIn es := by
  induction h with
  | nil => rfl
  | @cons e e' es es' he _ ih =>
      obtain ⟨⟨taken, rfl⟩, _⟩ := he
      by_cases hk : e.kind = .fanout
      · simpa [gatesIn, hk] using ih
      · simpa [gatesIn, hk] using ih

/-- **What collisions do to a state** in the course of the transcript `tr`. -/
structure Collided (s s' : GameState) (evs : List Outcome) (tr : List (Port × ℚ)) : Prop where
  met : ∃ m, Met s m ∧ ∃ player entities fan, s' = { m with player, entities, fan }
  gates : gatesIn s'.entities = gatesIn s.entities
  fan : s'.fan.map Fan.until_ = s.fan.map Fan.until_
  asked : Asked evs tr
  ids : (pickIds evs + freeIds s' : Multiset ℕ) ≤ freeIds s

/-- **The collisions of a tick.** -/
theorem collide_gives {s : GameState} (hs : s.status = .running) {tr : List (Port × ℚ)}
    {r : GameState × List Outcome} (h : (collide A cfg s).Gives tr r) :
    Collided s r.1 r.2 tr := by
  have hstart : ({ s, events := [], hitDone := false } : Pass).hitDone = false →
      s.status = .running := fun _ => hs
  unfold collide at h
  split at h
  · rename_i hfan
    obtain ⟨t, u, x, rfl, hx, hr⟩ := gives_bind.mp h
    obtain ⟨rfl, rfl⟩ := gives_done.mp hr
    have hx := meetTrack_touched hstart hx
    obtain ⟨evs, hev, hask, hids⟩ := hx.events
    have hmfan : x.1.s.fan = none := by
      obtain ⟨_, _, _, _, _, _, _, _, hm⟩ := hx.met.frame
      rw [hm]
      exact hfan
    simp only [List.nil_append] at hev
    refine ⟨⟨x.1.s, hx.met, _, _, _, rfl⟩, gatesIn_same hx.same, ?_, ?_, ?_⟩
    · rw [hmfan, hfan]
    · rw [hev, List.append_nil]
      exact hask
    · rw [hev]
      simpa [freeIds, allEntities, hmfan, hfan] using hids
  · rename_i fan hfan
    obtain ⟨t, u, x, rfl, hx, hr⟩ := gives_bind.mp h
    obtain ⟨rfl, rfl⟩ := gives_done.mp hr
    have hx := meetLanes_touched hstart hx
    obtain ⟨evs, hev, hask, hids⟩ := hx.events
    have hmes : x.1.s.entities = s.entities := by
      obtain ⟨_, _, _, _, _, _, _, _, hm⟩ := hx.met.frame
      rw [hm]
    simp only [List.nil_append] at hev
    refine ⟨⟨x.1.s, hx.met, _, _, _, rfl⟩, by rw [hmes], ?_, ?_, ?_⟩
    · rw [hfan]
      rfl
    · rw [hev, List.append_nil]
      exact hask
    · have hsum := add_le_add (le_refl (freeIn s.entities : Multiset ℕ)) hids
      rw [hev]
      simp only [freeIds, allEntities, hfan, hmes, Option.elim_some, freeIn_append,
        ← Multiset.coe_add]
      rwa [add_left_comm]

end DevDashboard.Web.Replay
