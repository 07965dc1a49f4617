/-
  File:      DevDashboard/Web/Replay/Course.lean
  Subject:   WHAT ONE TICK DOES, AND THE COURSE OF A LEVEL.

  How far a level has scrolled, where its gates stand, when a fan-out merges and when the level
  ends do not depend on the player, on rolls or on answers: this part of a state (`Course`) moves
  by itself as long as nothing stops the run.

  * `Stepped` -- all that is known of a tick of a running state; `step_gives` proves it;
  * `step_stopped` -- a state that has stopped stays as it is;
  * `same_pace` -- **two runs of a level keep pace**, whatever their seeds, players and answers;
  * `picked_once` -- no orb and no crate is taken twice.
-/
import DevDashboard.Web.Replay.Collide

namespace DevDashboard.Web.Replay

open Lib Asking

variable {A : Arith} {levels : LevelTable} {cfg : LevelConfig}

/-! ## 1. The course -/

/-- What of a state moves by itself. -/
structure Course where
  level : Level
  tick : ℕ
  elapsed : ℕ
  bossUntil : ℕ
  distance : ℚ
  scroll : ℚ
  nextGateAt : Option ℚ
  gates : List (ℚ × ℚ)
  fanUntil : Option ℕ

def courseOf (s : GameState) : Course where
  level := s.level
  tick := s.tick
  elapsed := s.elapsed
  bossUntil := s.bossUntil
  distance := s.distance
  scroll := s.scroll
  nextGateAt := s.nextGateAt
  gates := gatesIn s.entities
  fanUntil := s.fan.map Fan.until_

namespace Course

/-- Scrolling. -/
def scrolled (A : Arith) (speed : ℚ) (c : Course) : Course :=
  { c with
    scroll := A.add c.scroll speed
    gates :=
      if c.fanUntil = none then
        (c.gates.map fun g => (A.sub g.1 speed, g.2)).filter fun g => 0 < A.add g.1 g.2
      else c.gates }

/-- Whether a gate is near. -/
def near (A : Arith) (cfg : LevelConfig) (c : Course) : Bool :=
  cfg.fanOut.isSome && decide (c.bossUntil = 0) &&
    c.nextGateAt.any fun gate => decide (A.sub gate fanClearPx ≤ A.add c.distance c.scroll)

/-- The next gate appears. -/
def gated (A : Arith) (cfg : LevelConfig) (c : Course) : Course :=
  if c.near A cfg ∧ (c.nextGateAt.any fun gate => decide (gate ≤ A.add c.distance c.scroll)) ∧
      c.gates = [] then
    { c with gates := [(spawnX, gateW)] }
  else c

/-- A gate is reached. -/
def entered (cfg : LevelConfig) (c : Course) : Course :=
  match c.gates.head?, cfg.fanOut with
  | some g, some f =>
      if playerX < g.1 then c else { c with gates := [], fanUntil := some (c.tick + f.ticks) }
  | _, _ => c

/-- A fan-out ends. -/
def merged (A : Arith) (cfg : LevelConfig) (c : Course) : Course :=
  match c.fanUntil with
  | none => c
  | some u =>
      if u ≤ c.tick + 1 then
        { c with
          gates := []
          fanUntil := none
          nextGateAt := cfg.fanOut.map fun f => A.add (A.add c.distance c.scroll) f.everyPx }
      else c

/-- The course up to the collisions of a tick. -/
def before (A : Arith) (cfg : LevelConfig) (c : Course) : Course :=
  let c := c.scrolled A (speedAt A cfg c.elapsed)
  if c.fanUntil = none then (c.gated A cfg).entered cfg else c

/-- The course after them. -/
def after (A : Arith) (cfg : LevelConfig) (c : Course) : Course :=
  let c := c.merged A cfg
  { c with tick := c.tick + 1, elapsed := c.elapsed + 1 }

/-- One tick. -/
def next (A : Arith) (levels : LevelTable) (c : Course) : Course :=
  (c.before A (levels c.level)).after A (levels c.level)

/-- The level is over. -/
def Ended (A : Arith) (levels : LevelTable) (c : Course) : Prop :=
  c.fanUntil = none ∧
    ((levels c.level).length.any fun length => decide (length ≤ A.add c.distance c.scroll)) = true

end Course

/-! ## 2. The parts of a tick before the collisions -/

/-- Runtime inputs spend retries and grant grace. -/
theorem foldl_applyRuntime (inputs : List InputKind) (s : GameState) :
    ∃ grace, inputs.foldl applyRuntime s =
        { s with retries := s.retries - inputs.count .retry, graceUntil := grace } ∧
      s.graceUntil ≤ grace ∧
      (.retry ∈ inputs ∨ .resume ∈ inputs → s.tick < grace) := by
  induction inputs generalizing s with
  | nil => exact ⟨s.graceUntil, rfl, le_rfl, by simp⟩
  | cons i inputs ih =>
      obtain ⟨grace, hfold, hle, hgrace⟩ := ih (applyRuntime s i)
      refine ⟨grace, ?_, ?_, ?_⟩
      · rw [List.foldl_cons, hfold]
        cases i <;> simp [applyRuntime, Nat.sub_sub, Nat.add_comm]
      · refine le_trans ?_ hle
        cases i <;> simp [applyRuntime]
      · intro hmem
        cases i with
        | player k => exact hgrace (by simpa using hmem)
        | resume =>
            refine lt_of_lt_of_le ?_ hle
            simp [applyRuntime, graceResume]
        | retry =>
            refine lt_of_lt_of_le ?_ hle
            simp [applyRuntime, graceRetry]

/-- The parts before the collisions write to rolls and tracks only. -/
def TracksMoved (s s' : GameState) : Prop :=
  ∃ rng player scroll nextSpawnAt nextId entities fan,
    s' = { s with rng, player, scroll, nextSpawnAt, nextId, entities, fan }

theorem TracksMoved.refl (s : GameState) : TracksMoved s s := ⟨_, _, _, _, _, _, _, rfl⟩

theorem TracksMoved.trans {s s' s'' : GameState} (h : TracksMoved s s') (h' : TracksMoved s' s'') :
    TracksMoved s s'' := by
  obtain ⟨_, _, _, _, _, _, _, rfl⟩ := h
  obtain ⟨_, _, _, _, _, _, _, rfl⟩ := h'
  exact ⟨_, _, _, _, _, _, _, rfl⟩

/-- Ids that were free before, or are new: of ids `ids` and a next id `n` only `ids'` and `n'` are
    left. -/
def Grown (ids : Multiset ℕ) (n : ℕ) (ids' : Multiset ℕ) (n' : ℕ) : Prop :=
  n ≤ n' ∧ ids' ≤ ids + (List.range' n (n' - n) : Multiset ℕ)

theorem Grown.refl (ids : Multiset ℕ) (n : ℕ) : Grown ids n ids n := by
  refine ⟨le_rfl, ?_⟩
  simp

theorem Grown.of_le {ids ids' : Multiset ℕ} (h : ids' ≤ ids) (n : ℕ) : Grown ids n ids' n := by
  refine ⟨le_rfl, ?_⟩
  simpa using h

theorem Grown.trans {a b c : Multiset ℕ} {n m k : ℕ} (h : Grown a n b m) (h' : Grown b m c k) :
    Grown a n c k := by
  obtain ⟨hnm, hab⟩ := h
  obtain ⟨hmk, hbc⟩ := h'
  refine ⟨hnm.trans hmk, hbc.trans ?_⟩
  have hrange : List.range' n (k - n) = List.range' n (m - n) ++ List.range' m (k - m) := by
    have hlen : k - n = (m - n) + (k - m) := by omega
    have hstart : n + (m - n) = m := by omega
    rw [hlen, ← List.range'_append_1, hstart]
  rw [hrange, ← Multiset.coe_add, ← add_assoc]
  exact add_le_add hab le_rfl

/-- Ids beside the ones in question. -/
theorem Grown.add_left {a b : Multiset ℕ} {n m : ℕ} (h : Grown a n b m) (c : Multiset ℕ) :
    Grown (c + a) n (c + b) m := by
  refine ⟨h.1, ?_⟩
  rw [add_assoc]
  exact add_le_add le_rfl h.2

theorem Grown.add_right {a b : Multiset ℕ} {n m : ℕ} (h : Grown a n b m) (c : Multiset ℕ) :
    Grown (a + c) n (b + c) m := by
  rw [add_comm a, add_comm b]
  exact h.add_left c

theorem Grown.new (a : Multiset ℕ) (n : ℕ) : Grown a n (a + ([n] : List ℕ)) (n + 1) := by
  refine ⟨Nat.le_succ n, ?_⟩
  have h1 : n + 1 - n = 1 := by omega
  rw [h1]
  exact le_rfl

theorem moveTracks_spec (inputs : List InputKind) (s : GameState) :
    TracksMoved s (moveTracks A inputs s) ∧ courseOf (moveTracks A inputs s) = courseOf s ∧
      freeIds (moveTracks A inputs s) = freeIds s ∧
      (moveTracks A inputs s).nextId = s.nextId := by
  unfold moveTracks
  split
  · rename_i hfan
    exact ⟨⟨_, _, _, _, _, _, _, rfl⟩, rfl, rfl, rfl⟩
  · rename_i fan hfan
    refine ⟨⟨_, _, _, _, _, _, _, rfl⟩, ?_, ?_, rfl⟩
    · simp [courseOf, hfan]
    · simp [freeIds, allEntities, hfan, List.flatMap_map]

theorem updateFalling_same (speed : ℚ) (e : Entity) :
    ∃ y vy, updateFalling A speed e = { e with y, vy } := by
  unfold updateFalling
  split
  · exact ⟨_, _, rfl⟩
  · simp only
    split <;> exact ⟨_, _, rfl⟩

theorem freeIn_scroll (speed : ℚ) (es : List Entity) :
    (freeIn (scrollEntities A speed es)).Sublist (freeIn es) := by
  have hmap : freeIn (es.map fun e => updateFalling A speed { e with x := A.sub e.x speed }) =
      freeIn es := by
    induction es with
    | nil => rfl
    | cons e es ih =>
        obtain ⟨y, vy, he⟩ := updateFalling_same (A := A) speed { e with x := A.sub e.x speed }
        rw [List.map_cons, he]
        cases ht : e.taken <;> simpa [freeIn, ht] using ih
  rw [← hmap]
  exact (List.filter_sublist.filter _).map _

theorem gatesIn_scroll (speed : ℚ) (es : List Entity) :
    gatesIn (scrollEntities A speed es) =
      ((gatesIn es).map fun g => (A.sub g.1 speed, g.2)).filter fun g => 0 < A.add g.1 g.2 := by
  induction es with
  | nil => rfl
  | cons e es ih =>
      obtain ⟨y, vy, he⟩ := updateFalling_same (A := A) speed { e with x := A.sub e.x speed }
      unfold scrollEntities at ih ⊢
      rw [List.map_cons, he]
      by_cases hk : e.kind = .fanout
      · by_cases hx : 0 < A.add (A.sub e.x speed) e.w
        · simpa [gatesIn, hk, hx] using ih
        · simpa [gatesIn, hk, hx] using ih
      · by_cases hx : 0 < A.add (A.sub e.x speed) e.w
        · simpa [gatesIn, hk, hx] using ih
        · simpa [gatesIn, hk, hx] using ih

theorem scrollTracks_spec (speed : ℚ) (s : GameState) :
    TracksMoved s (scrollTracks A speed s) ∧
      courseOf (scrollTracks A speed s) = (courseOf s).scrolled A speed ∧
      (freeIds (scrollTracks A speed s) : Multiset ℕ) ≤ freeIds s ∧
      (scrollTracks A speed s).nextId = s.nextId := by
  unfold scrollTracks
  split
  · rename_i hfan
    refine ⟨⟨_, _, _, _, _, _, _, rfl⟩, ?_, ?_, rfl⟩
    · simp [courseOf, Course.scrolled, hfan, gatesIn_scroll]
    · simp only [freeIds, allEntities, hfan, Option.elim_none, List.append_nil]
      exact (freeIn_scroll speed s.entities).subperm
  · rename_i fan hfan
    refine ⟨⟨_, _, _, _, _, _, _, rfl⟩, ?_, ?_, rfl⟩
    · simp [courseOf, Course.scrolled, hfan]
    · have hlanes : ∀ lanes : List Lane,
          (freeIn ((lanes.map fun l => { l with entities := scrollEntities A speed l.entities }).flatMap
            Lane.entities)).Sublist (freeIn (lanes.flatMap Lane.entities)) := by
        intro lanes
        induction lanes with
        | nil => exact List.Sublist.refl _
        | cons l lanes ih =>
            simp only [List.map_cons, List.flatMap_cons, freeIn_append]
            exact (freeIn_scroll speed l.entities).append ih
      simp only [freeIds, allEntities, hfan, Option.elim_some, freeIn_append]
      exact ((List.Sublist.refl _).append (hlanes fan.lanes)).subperm

/-! ## 3. Spawning -/

theorem pickKind_ne_fanout (weights : EntityKind → ℚ) (x : ℚ) (ks : List EntityKind)
    (hks : .fanout ∉ ks) : pickKind A weights x ks ≠ .fanout := by
  induction ks generalizing x with
  | nil => simp [pickKind]
  | cons k ks ih =>
      rw [List.mem_cons, not_or] at hks
      unfold pickKind
      split
      · exact fun h => hks.1 h.symm
      · exact ih _ hks.2

theorem chooseKind_ne_fanout (weights : EntityKind → ℚ) (r : ℚ) :
    chooseKind A weights r ≠ .fanout := pickKind_ne_fanout _ _ _ (by decide)

theorem gatesIn_spawn {kind : EntityKind} (hk : kind ≠ .fanout) (id : ℕ) (x yRoll : ℚ) :
    gatesIn [spawn A kind id x yRoll] = [] := by
  simp [gatesIn, spawn, hk]

theorem freeIn_spawn (kind : EntityKind) (id : ℕ) (x yRoll : ℚ) :
    freeIn [spawn A kind id x yRoll] = [id] := rfl

/-- What a part of the spawning of a track may do. -/
structure Spawned (s s' : GameState) : Prop where
  moved : TracksMoved s s'
  fan : s'.fan = s.fan
  scroll : s'.scroll = s.scroll
  grown : Grown (freeIds s) s.nextId (freeIds s') s'.nextId

theorem Spawned.refl (s : GameState) : Spawned s s := ⟨.refl s, rfl, rfl, .refl _ _⟩

theorem Spawned.trans {s s' s'' : GameState} (h : Spawned s s') (h' : Spawned s' s'') :
    Spawned s s'' :=
  ⟨h.moved.trans h'.moved, h'.fan.trans h.fan, h'.scroll.trans h.scroll, h.grown.trans h'.grown⟩

/-- A new entity on the main track. -/
theorem freeIds_push (s : GameState) {e : Entity} (he : e.taken = false) (rng : BitVec 32)
    (nextId : ℕ) (nextSpawnAt : ℚ) :
    (freeIds { s with rng, entities := s.entities ++ [e], nextId, nextSpawnAt } : Multiset ℕ) =
      freeIds s + ([e.id] : List ℕ) := by
  have hnew : freeIn [e] = [e.id] := by simp [freeIn, he]
  simp only [freeIds, allEntities, freeIn_append, hnew, ← Multiset.coe_add]
  exact add_right_comm _ _ _

theorem spawnOne_spawned (weights : EntityKind → ℚ) (speed : ℚ) (s : GameState) :
    Spawned s (spawnOne A weights speed s) ∧
      gatesIn (spawnOne A weights speed s).entities = gatesIn s.entities := by
  unfold spawnOne
  generalize roll s.rng = r
  refine ⟨⟨⟨_, _, _, _, _, _, _, rfl⟩, rfl, rfl, ?_⟩, ?_⟩
  · rw [freeIds_push s (e := spawn A (chooseKind A weights r.1) s.nextId spawnX r.2.1) rfl]
    exact .new _ _
  · simp only
    rw [gatesIn_append, gatesIn_spawn (chooseKind_ne_fanout _ _), List.append_nil]

theorem spawnMain_spec (speed : ℚ) (s : GameState) :
    Spawned s (spawnMain A cfg speed s) ∧
      courseOf (spawnMain A cfg speed s) = (courseOf s).gated A cfg := by
  have hnear : nearGate A cfg s = (courseOf s).near A cfg := rfl
  have hgates : (∀ e ∈ s.entities, e.kind ≠ .fanout) ↔ gatesIn s.entities = [] := by
    simp [gatesIn, List.filter_eq_nil_iff]
  unfold spawnMain Course.gated
  rw [hnear]
  by_cases hn : (courseOf s).near A cfg = true
  · rw [if_pos hn]
    by_cases hg : (s.nextGateAt.any fun gate => decide (gate ≤ A.add s.distance s.scroll)) = true ∧
        ∀ e ∈ s.entities, e.kind ≠ .fanout
    · rw [if_pos hg, if_pos ⟨hn, hg.1, hgates.mp hg.2⟩]
      refine ⟨⟨⟨_, _, _, _, _, _, _, rfl⟩, rfl, rfl, ?_⟩, ?_⟩
      · rw [freeIds_push s (e := gateEntity s.nextId) rfl s.rng _ s.nextSpawnAt]
        exact .new _ _
      · simp only [courseOf]
        rw [gatesIn_append, hgates.mp hg.2]
        rfl
    · rw [if_neg hg, if_neg fun h => hg ⟨h.2.1, hgates.mpr h.2.2⟩]
      exact ⟨.refl s, rfl⟩
  · have hgn : ¬ ((courseOf s).near A cfg = true ∧
        ((courseOf s).nextGateAt.any fun gate =>
          decide (gate ≤ A.add (courseOf s).distance (courseOf s).scroll)) = true ∧
        (courseOf s).gates = []) := fun h => hn h.1
    rw [if_neg hn, if_neg hgn]
    have hloop := @loopWhile_inv _ (fun s => decide (s.nextSpawnAt ≤ s.scroll))
      (spawnOne A (if 0 < s.bossUntil then cfg.bossWeights else cfg.weights) speed)
      (fun s' => Spawned s s' ∧ gatesIn s'.entities = gatesIn s.entities)
      (fun s' hs' => by
        have hone := spawnOne_spawned (A := A)
          (if 0 < s.bossUntil then cfg.bossWeights else cfg.weights) speed s'
        exact ⟨hs'.1.trans hone.1, hone.2.trans hs'.2⟩)
      A.turns s ⟨.refl s, rfl⟩
    refine ⟨hloop.1, ?_⟩
    obtain ⟨hsp, hg⟩ := hloop
    revert hsp hg
    generalize loopWhile _ _ _ s = s'
    intro hsp hg
    obtain ⟨⟨_, _, _, _, _, _, _, rfl⟩, hfan, hscroll, _⟩ := hsp
    simp only at hfan hscroll hg
    simp only [courseOf, hfan, hscroll, hg]

theorem enterGate_spec (s : GameState) :
    TracksMoved s (enterGate A cfg s).1 ∧
      courseOf (enterGate A cfg s).1 = (courseOf s).entered cfg ∧
      (freeIds (enterGate A cfg s).1 : Multiset ℕ) ≤ freeIds s ∧
      (enterGate A cfg s).1.nextId = s.nextId ∧
      ∀ ev ∈ (enterGate A cfg s).2, ev.pick? = none := by
  have hhead : (gatesIn s.entities).head? =
      (s.entities.find? fun e => e.kind = .fanout).map fun e => (e.x, e.w) := by
    rw [gatesIn, List.head?_map, List.head?_filter]
  have hstay : TracksMoved s s ∧ (freeIds s : Multiset ℕ) ≤ freeIds s ∧ s.nextId = s.nextId ∧
      ∀ ev ∈ ([] : List Outcome), ev.pick? = none := ⟨.refl s, le_rfl, rfl, by simp⟩
  unfold enterGate Course.entered
  cases hfind : s.entities.find? fun e => e.kind = .fanout with
  | none =>
      rw [hfind] at hhead
      rw [show (courseOf s).gates.head? = none from hhead]
      exact ⟨hstay.1, rfl, hstay.2⟩
  | some gate =>
      rw [hfind] at hhead
      rw [show (courseOf s).gates.head? = some (gate.x, gate.w) from hhead]
      cases hf : cfg.fanOut with
      | none => exact ⟨hstay.1, rfl, hstay.2⟩
      | some f =>
          simp only
          by_cases hx : playerX < gate.x
          · rw [if_pos hx, if_pos hx]
            exact ⟨hstay.1, rfl, hstay.2⟩
          · rw [if_neg hx, if_neg hx]
            refine ⟨⟨_, _, _, _, _, _, _, rfl⟩, rfl, ?_, rfl, by simp [Outcome.pick?]⟩
            simp only [freeIds, allEntities, freeIn, fanLanes, List.replicate, Option.elim_some,
              List.flatMap_cons, List.flatMap_nil, List.append_nil, List.filter_nil, List.map_nil]
            exact Multiset.zero_le _

theorem spawnAll_grown (speed scroll : ℚ) (rng : BitVec 32) (n : ℕ) (lanes : List Lane) :
    Grown (freeIn (lanes.flatMap Lane.entities)) n
      (freeIn ((spawnAll A cfg speed scroll rng n lanes).2.2.flatMap Lane.entities))
      (spawnAll A cfg speed scroll rng n lanes).2.1 := by
  induction lanes generalizing rng n with
  | nil => exact .refl _ _
  | cons lane lanes ih =>
      have hlane : ∀ c : LaneSpawn,
          Grown (freeIn lane.entities) n (freeIn c.lane.entities) c.nextId →
          Grown (freeIn lane.entities) n (freeIn (spawnInLane A cfg speed c).lane.entities)
            (spawnInLane A cfg speed c).nextId := by
        intro c hc
        refine hc.trans ?_
        simp only [spawnInLane]
        rw [freeIn_append, freeIn_spawn, ← Multiset.coe_add]
        exact .new _ _
      have hloop := @loopWhile_inv _ (fun c : LaneSpawn => decide (c.lane.nextSpawnAt ≤ scroll)) _
        _ hlane A.turns ⟨rng, n, lane⟩ (.refl _ _)
      have hrest := ih (loopWhile (fun c : LaneSpawn => decide (c.lane.nextSpawnAt ≤ scroll))
        (spawnInLane A cfg speed) A.turns ⟨rng, n, lane⟩).rng
        (loopWhile (fun c : LaneSpawn => decide (c.lane.nextSpawnAt ≤ scroll))
        (spawnInLane A cfg speed) A.turns ⟨rng, n, lane⟩).nextId
      simp only [spawnAll, List.flatMap_cons, freeIn_append, ← Multiset.coe_add]
      refine Grown.trans ?_ (hrest.add_left _)
      exact hloop.add_right _

theorem spawnLanes_spec (speed : ℚ) (fan : Fan) (s : GameState) (hfan : s.fan = some fan) :
    TracksMoved s (spawnLanes A cfg speed fan s) ∧
      courseOf (spawnLanes A cfg speed fan s) = courseOf s ∧
      Grown (freeIds s) s.nextId (freeIds (spawnLanes A cfg speed fan s))
        (spawnLanes A cfg speed fan s).nextId := by
  unfold spawnLanes
  split
  · exact ⟨.refl s, rfl, .refl _ _⟩
  · refine ⟨⟨_, _, _, _, _, _, _, rfl⟩, by simp [courseOf, hfan], ?_⟩
    simp only [freeIds, allEntities, hfan, Option.elim_some, freeIn_append, ← Multiset.coe_add]
    exact (spawnAll_grown speed s.scroll s.rng s.nextId fan.lanes).add_left _

/-! ## 4. The tick -/

/-- What is known of a state before the collisions of a tick. -/
structure Before (A : Arith) (cfg : LevelConfig) (inputs : List InputKind) (s b : GameState) :
    Prop where
  level : b.level = s.level
  tick : b.tick = s.tick
  status : b.status = s.status
  retries : b.retries = s.retries - inputs.count .retry
  grace : .retry ∈ inputs ∨ .resume ∈ inputs → b.tick < b.graceUntil
  course : courseOf b = (courseOf s).before A cfg
  grown : Grown (freeIds s) s.nextId (freeIds b) b.nextId

/-- The boost and the runtime inputs touch no track. -/
theorem startTick_spec (inputs : List InputKind) (s : GameState) :
    ∃ multiplier graceUntil, inputs.foldl applyRuntime (endBoost s) =
        { s with multiplier, graceUntil, retries := s.retries - inputs.count .retry } ∧
      (.retry ∈ inputs ∨ .resume ∈ inputs → s.tick < graceUntil) := by
  have hboost : ∃ multiplier, endBoost s = { s with multiplier } := by
    unfold endBoost
    split
    · exact ⟨1, rfl⟩
    · exact ⟨s.multiplier, rfl⟩
  obtain ⟨multiplier, hboost⟩ := hboost
  obtain ⟨grace, hruntime, -, hgrace⟩ := foldl_applyRuntime inputs (endBoost s)
  rw [hboost] at hruntime hgrace ⊢
  exact ⟨multiplier, grace, hruntime, hgrace⟩

/-- Movement and scrolling. -/
theorem scrolled_spec (inputs : List InputKind) (speed : ℚ) (s : GameState) :
    TracksMoved s (scrollTracks A speed (moveTracks A inputs s)) ∧
      courseOf (scrollTracks A speed (moveTracks A inputs s)) = (courseOf s).scrolled A speed ∧
      Grown (freeIds s) s.nextId (freeIds (scrollTracks A speed (moveTracks A inputs s)))
        (scrollTracks A speed (moveTracks A inputs s)).nextId := by
  obtain ⟨hm, hmc, hmf, hmn⟩ := moveTracks_spec (A := A) inputs s
  obtain ⟨hs, hsc, hsf, hsn⟩ := scrollTracks_spec (A := A) speed (moveTracks A inputs s)
  refine ⟨hm.trans hs, by rw [hsc, hmc], ?_⟩
  rw [hsn, hmn]
  rw [hmf] at hsf
  exact .of_le hsf _

theorem spawnTracks_spec (speed : ℚ) (s : GameState) :
    TracksMoved s (spawnTracks A cfg speed s).1 ∧
      courseOf (spawnTracks A cfg speed s).1 =
        (if (courseOf s).fanUntil = none then ((courseOf s).gated A cfg).entered cfg
          else courseOf s) ∧
      Grown (freeIds s) s.nextId (freeIds (spawnTracks A cfg speed s).1)
        (spawnTracks A cfg speed s).1.nextId ∧
      ∀ ev ∈ (spawnTracks A cfg speed s).2, ev.pick? = none := by
  have hfan : (courseOf s).fanUntil = s.fan.map Fan.until_ := rfl
  unfold spawnTracks
  cases hf : s.fan with
  | none =>
      obtain ⟨hsp, hspc⟩ := @spawnMain_spec A cfg speed s
      obtain ⟨he, hec, hef, hen, hev⟩ :=
        @enterGate_spec A cfg (spawnMain A cfg speed s)
      refine ⟨hsp.moved.trans he, ?_, hsp.grown.trans ?_, hev⟩
      · rw [hec, hspc, hfan, hf]
        rfl
      · rw [hen]
        exact .of_le hef _
  | some fan =>
      obtain ⟨hl, hlc, hlg⟩ := @spawnLanes_spec A cfg speed fan s hf
      refine ⟨hl, ?_, hlg, by simp⟩
      rw [hlc, hfan, hf]
      rfl

theorem beforeCollide_spec (inputs : List InputKind) (s : GameState) :
    Before A cfg inputs s (beforeCollide A cfg inputs s).1 ∧
      ∀ ev ∈ (beforeCollide A cfg inputs s).2, ev.pick? = none := by
  obtain ⟨multiplier, graceUntil, hstart, hgrace⟩ := startTick_spec inputs s
  have hbefore : beforeCollide A cfg inputs s =
      spawnTracks A cfg (speedAt A cfg s.elapsed) (scrollTracks A (speedAt A cfg s.elapsed)
        (moveTracks A inputs (inputs.foldl applyRuntime (endBoost s)))) := by
    obtain ⟨_, _, _, _, _, _, _, hm⟩ := (moveTracks_spec (A := A) inputs
      (inputs.foldl applyRuntime (endBoost s))).1
    have helapsed : (moveTracks A inputs (inputs.foldl applyRuntime (endBoost s))).elapsed =
        s.elapsed := by rw [hm, hstart]
    unfold beforeCollide
    simp only [helapsed]
  rw [hbefore]
  generalize hs' : inputs.foldl applyRuntime (endBoost s) = s'
  rw [hs'] at hstart
  obtain ⟨hsc, hscc, hscg⟩ := scrolled_spec (A := A) inputs (speedAt A cfg s.elapsed) s'
  obtain ⟨hsp, hspc, hspg, hev⟩ := @spawnTracks_spec A cfg (speedAt A cfg s.elapsed)
    (scrollTracks A (speedAt A cfg s.elapsed) (moveTracks A inputs s'))
  refine ⟨?_, hev⟩
  have hcourse : courseOf s' = courseOf s := by
    rw [hstart]
    rfl
  have hgrown : Grown (freeIds s) s.nextId (freeIds s') s'.nextId := by
    rw [hstart]
    exact .refl _ _
  obtain ⟨_, _, _, _, _, _, _, hb⟩ := hsc.trans hsp
  rw [hscc, hcourse] at hspc
  refine ⟨?_, ?_, ?_, ?_, ?_, hspc, hgrown.trans (hscg.trans hspg)⟩
  all_goals rw [hb, hstart]
  exact hgrace

/-- What is known of a tick of a running state, with the transcript `tr` of what it asked. -/
structure Stepped (A : Arith) (levels : LevelTable) (prev : GameState) (inputs : List InputKind)
    (tr : List (Port × ℚ)) (r : StepResult) : Prop where
  level : r.state.level = prev.level
  tick : r.state.tick = prev.tick + 1
  retries : r.state.retries = prev.retries - inputs.count .retry
  /-- A tick that starts with a retry or a resume cannot fail. -/
  safe : .retry ∈ inputs ∨ .resume ∈ inputs → r.state.status ≠ .retry ∧ r.state.status ≠ .failed
  hit : r.state.status = .retry → r.state.failedAt = prev.tick ∧ 0 < r.state.retries
  course : r.state.status = .running ∨ r.state.status = .levelDone →
    courseOf r.state = (courseOf prev).next A levels ∧
      (r.state.status = .levelDone ↔ (courseOf r.state).Ended A levels)
  events : ∃ evs, Asked evs tr ∧
    r.events = evs.map fun what => ⟨prev.tick, hashState A r.state, what⟩
  grown : Grown (freeIds prev) prev.nextId
    (pickIds (r.events.map OutcomeEvent.what) + freeIds r.state) r.state.nextId

theorem merge_spec (s : GameState) :
    (∃ player entities fan nextGateAt nextSpawnAt,
      (merge A cfg s).1 = { s with player, entities, fan, nextGateAt, nextSpawnAt }) ∧
      (s.status = .running → courseOf (merge A cfg s).1 = (courseOf s).merged A cfg) ∧
      (freeIds (merge A cfg s).1 : Multiset ℕ) ≤ freeIds s ∧
      ∀ ev ∈ (merge A cfg s).2, ev.pick? = none := by
  unfold merge Course.merged
  cases hfan : s.fan with
  | none => exact ⟨⟨_, _, _, _, _, rfl⟩, fun _ => by simp [courseOf, hfan], le_rfl, by simp⟩
  | some fan =>
      have hfu : (courseOf s).fanUntil = some fan.until_ := by simp [courseOf, hfan]
      simp only [hfu]
      by_cases hu : s.status = .running ∧ fan.until_ ≤ s.tick + 1
      · rw [if_pos hu]
        refine ⟨⟨_, _, _, _, _, rfl⟩, fun _ => ?_, ?_, by simp [Outcome.pick?]⟩
        · rw [if_pos (show fan.until_ ≤ (courseOf s).tick + 1 from hu.2)]
          rfl
        · exact Multiset.zero_le _
      · rw [if_neg hu]
        refine ⟨⟨_, _, _, _, _, rfl⟩, fun hs => ?_, le_rfl, by simp⟩
        exact (if_neg fun h => hu ⟨hs, h⟩).symm

/-- Events that are no pick-ups ask nothing. -/
theorem Asked.of_no_picks {evs : List Outcome} (h : ∀ ev ∈ evs, ev.pick? = none) :
    Asked evs [] ∧ pickIds evs = [] := by
  induction evs with
  | nil => exact ⟨.nil, rfl⟩
  | cons ev evs ih =>
      have hev := h ev List.mem_cons_self
      obtain ⟨h1, h2⟩ := ih fun e he => h e (List.mem_cons_of_mem _ he)
      exact ⟨.other hev h1, by rw [pickIds, List.filterMap_cons_none hev]; exact h2⟩

/-- What is known of a state after the collisions: it merges, ends and counts the tick. -/
theorem afterCollide_spec (c : GameState) (evs : List Outcome) :
    (∃ player entities fan nextGateAt nextSpawnAt status,
      (afterCollide A (levels c.level) c evs).state =
        { c with
          player, entities, fan, nextGateAt, nextSpawnAt, status
          tick := c.tick + 1
          elapsed := c.elapsed + 1 }) ∧
      ((afterCollide A (levels c.level) c evs).state.status = c.status ∨ c.status = .running ∧
        (afterCollide A (levels c.level) c evs).state.status = .levelDone) ∧
      (c.status = .running →
        courseOf (afterCollide A (levels c.level) c evs).state =
            (courseOf c).after A (levels c.level) ∧
          ((afterCollide A (levels c.level) c evs).state.status = .levelDone ↔
            (courseOf (afterCollide A (levels c.level) c evs).state).Ended A levels)) ∧
      (freeIds (afterCollide A (levels c.level) c evs).state : Multiset ℕ) ≤ freeIds c ∧
      ∃ evs', (∀ ev ∈ evs', ev.pick? = none) ∧
        (afterCollide A (levels c.level) c evs).events = (evs ++ evs').map fun what =>
          ⟨c.tick, hashState A (afterCollide A (levels c.level) c evs).state, what⟩ := by
  obtain ⟨⟨player, entities, fan, gate, spawnAt, hm⟩, hmc, hmf, hmev⟩ :=
    @merge_spec A (levels c.level) c
  unfold afterCollide
  generalize merge A (levels c.level) c = m at hm hmc hmf hmev ⊢
  obtain ⟨m, mevs⟩ := m
  simp only at hm hmc hmf hmev ⊢
  have hstatus : m.status = c.status := by rw [hm]
  have hlevel : m.level = c.level := by rw [hm]
  unfold finish
  by_cases hend : m.status = .running ∧ m.fan = none ∧
      ((levels c.level).length.any fun length => decide (length ≤ A.add m.distance m.scroll)) = true
  · rw [if_pos hend]
    refine ⟨⟨player, entities, fan, gate, spawnAt, .levelDone, by rw [hm]⟩,
      .inr ⟨hstatus ▸ hend.1, rfl⟩, fun hc => ⟨?_, ?_⟩, hmf, mevs, hmev, rfl⟩
    · rw [Course.after, ← hmc hc]
      rfl
    · refine iff_of_true rfl ⟨?_, ?_⟩
      · simp [courseOf, hend.2.1]
      · simp only [courseOf, hlevel]
        exact hend.2.2
  · rw [if_neg hend]
    refine ⟨⟨player, entities, fan, gate, spawnAt, c.status, by rw [hm]⟩, .inl hstatus,
      fun hc => ⟨?_, ?_⟩, hmf, mevs, hmev, rfl⟩
    · rw [Course.after, ← hmc hc]
      rfl
    · refine iff_of_false ?_ ?_
      · simp [hstatus, hc]
      · rintro ⟨hfan, hlen⟩
        refine hend ⟨hstatus.trans hc, by simpa [courseOf] using hfan, ?_⟩
        simp only [courseOf, hlevel] at hlen
        exact hlen

/-- **One tick of a running state.** -/
theorem step_gives {prev : GameState} (hprev : prev.status = .running) {inputs : List InputKind}
    {tr : List (Port × ℚ)} {r : StepResult} (h : (step A levels prev inputs).Gives tr r) :
    Stepped A levels prev inputs tr r := by
  unfold step at h
  rw [if_neg (not_not.mpr hprev)] at h
  obtain ⟨hb, hbev⟩ := @beforeCollide_spec A (levels prev.level) inputs prev
  obtain ⟨t, u, c, rfl, hc, hr⟩ := gives_bind.mp h
  obtain ⟨rfl, rfl⟩ := gives_done.mp hr
  clear h hr
  generalize beforeCollide A (levels prev.level) inputs prev = b at hb hbev hc ⊢
  obtain ⟨b, bevs⟩ := b
  obtain ⟨c, cevs⟩ := c
  simp only at hb hbev hc ⊢
  have hbrun : b.status = .running := hb.status.trans hprev
  have hcol : Collided b c cevs t := collide_gives hbrun hc
  obtain ⟨m, hmet, player, entities, fan, hcm⟩ := hcol.met
  obtain ⟨rng, score, shield, mult, multUntil, graceUntil, failedAt, status, hmb⟩ := hmet.frame
  have hclevel : c.level = prev.level := by rw [hcm, hmb]; exact hb.level
  have hctick : c.tick = prev.tick := by rw [hcm, hmb]; exact hb.tick
  have hcretries : c.retries = prev.retries - inputs.count .retry := by
    rw [hcm, hmb]
    exact hb.retries
  have hcstatus : c.status = m.status := by rw [hcm]
  have hcnext : c.nextId = b.nextId := by rw [hcm, hmb]
  have hccourse : courseOf c = courseOf b := by
    have hg := hcol.gates
    have hf := hcol.fan
    rw [hcm, hmb] at hg hf ⊢
    simp only [courseOf] at hg hf ⊢
    rw [hg, hf]
  obtain ⟨⟨_, _, _, _, _, _, hframe⟩, hstatus, hcourse, hfree, evs', hev', hevents⟩ :=
    @afterCollide_spec A levels c (bevs ++ cevs)
  rw [hclevel] at hframe hstatus hcourse hfree hevents
  generalize afterCollide A (levels prev.level) c (bevs ++ cevs) = r at *
  have hrun : r.state.status = .running ∨ r.state.status = .levelDone → c.status = .running := by
    intro h
    rcases hstatus with h' | h'
    · have hcs := hmet.status
      rw [hcstatus] at h'
      rw [hcstatus]
      rcases hcs with ⟨hms, _⟩ | ⟨_, hms | ⟨hms, _⟩⟩
      · exact hms.trans hbrun
      · rw [h', hms] at h
        simp at h
      · rw [h', hms] at h
        simp at h
    · exact h'.1
  refine ⟨?_, ?_, ?_, ?_, ?_, ?_, ?_, ?_⟩
  · rw [hframe]
  · rw [hframe]
    exact congrArg (· + 1) hctick
  · rw [hframe]
    exact hcretries
  · intro hin
    obtain ⟨hms, -⟩ := hmet.grace (hb.grace hin)
    have hcs : c.status = .running := by rw [hcstatus, hms, hbrun]
    rcases hstatus with h' | h'
    · simp [h', hcs]
    · simp [h'.2]
  · intro hretry
    have hcs : c.status = .retry := by
      rcases hstatus with h' | h'
      · exact h'.symm.trans hretry
      · rw [h'.2] at hretry
        cases hretry
    rcases hmet.status with ⟨hms, _⟩ | ⟨_, hms | ⟨hms, hfailed, hretries⟩⟩
    · rw [hcstatus, hms, hbrun] at hcs
      cases hcs
    · rw [hcstatus, hms] at hcs
      cases hcs
    · rw [hframe]
      simp only
      rw [hcretries, ← hb.retries]
      refine ⟨?_, hretries⟩
      rw [hcm]
      exact hfailed.trans hb.tick
  · intro h
    obtain ⟨h1, h2⟩ := hcourse (hrun h)
    refine ⟨?_, h2⟩
    rw [h1, hccourse, hb.course]
    rfl
  · refine ⟨bevs ++ cevs ++ evs', ?_, ?_⟩
    · have h1 := (Asked.of_no_picks hbev).1.append hcol.asked
      have h2 := h1.append (Asked.of_no_picks hev').1
      rw [List.append_nil, List.nil_append] at h2
      rwa [List.append_nil]
    · rw [hevents, hctick]
  · have hpicks : pickIds (r.events.map OutcomeEvent.what) = pickIds cevs := by
      rw [hevents, List.map_map]
      have hid : (OutcomeEvent.what ∘ fun what => OutcomeEvent.mk c.tick (hashState A r.state) what) =
          id := rfl
      rw [hid, List.map_id, pickIds_append, pickIds_append, (Asked.of_no_picks hbev).2,
        (Asked.of_no_picks hev').2, List.nil_append, List.append_nil]
    have hnext : r.state.nextId = b.nextId := by
      rw [hframe]
      exact hcnext
    rw [hpicks, hnext]
    exact hb.grown.trans (.of_le ((add_le_add le_rfl hfree).trans hcol.ids) _)

/-- A state that has stopped stays as it is. -/
theorem step_stopped {prev : GameState} (hprev : prev.status ≠ .running) {inputs : List InputKind}
    {tr : List (Port × ℚ)} {r : StepResult} (h : (step A levels prev inputs).Gives tr r) :
    tr = [] ∧ r = ⟨prev, []⟩ := by
  unfold step at h
  rw [if_pos hprev] at h
  exact gives_done.mp h

/-! ## 5. The pace of a level -/

theorem Grown.nodup {n m : ℕ} {ids : List ℕ} {ids' : Multiset ℕ} (h : Grown ids n ids' m)
    (hids : ids.Nodup) (hbound : ∀ i ∈ ids, i < n) :
    ids'.Nodup ∧ ∀ i ∈ ids', i < m := by
  obtain ⟨hnm, hle⟩ := h
  rw [Multiset.coe_add] at hle
  constructor
  · refine Multiset.nodup_of_le hle ?_
    rw [Multiset.coe_nodup, List.nodup_append]
    refine ⟨hids, List.nodup_range', fun i hi j hj => ?_⟩
    rw [List.mem_range'_1] at hj
    have := hbound i hi
    omega
  · intro i hi
    have hmem := Multiset.mem_of_le hle hi
    rw [Multiset.mem_coe, List.mem_append] at hmem
    rcases hmem with hmem | hmem
    · exact lt_of_lt_of_le (hbound i hmem) hnm
    · rw [List.mem_range'_1] at hmem
      omega

/-- The ticks of a segment with any inputs, told anything: what they report, and where they lead. -/
inductive Ticked (A : Arith) (levels : LevelTable) (start : StartInput) :
    List OutcomeEvent → GameState → Prop where
  | start : Ticked A levels start [] (initialState A levels start)
  | tick {outs : List OutcomeEvent} {s : GameState} (h : Ticked A levels start outs s)
      {inputs : List InputKind} {tr : List (Port × ℚ)} {r : StepResult}
      (hstep : (step A levels s inputs).Gives tr r) :
      Ticked A levels start (outs ++ r.events) r.state

/-- The ticks of some inputs, told zero whenever they ask. -/
def tickAll (A : Arith) (levels : LevelTable) (inputs : List (List InputKind)) (start : StartInput) :
    List OutcomeEvent × GameState :=
  inputs.foldl
    (fun p i =>
      let r := ((step A levels p.2 i).answer (fun (u : Unit) _ => (0, u)) ()).1
      (p.1 ++ r.events, r.state))
    ([], initialState A levels start)

theorem ticked_tickAll (inputs : List (List InputKind)) (start : StartInput) :
    Ticked A levels start (tickAll A levels inputs start).1 (tickAll A levels inputs start).2 := by
  induction inputs using List.reverseRecOn with
  | nil => exact .start
  | append_singleton inputs i ih =>
      obtain ⟨tr, htr⟩ := answer_gives (fun (u : Unit) (_ : Port) => ((0 : ℚ), u))
        (step A levels (tickAll A levels inputs start).2 i) ()
      have hlast : tickAll A levels (inputs ++ [i]) start = _ := List.foldl_concat _ _ _ _
      rw [hlast]
      exact ih.tick htr

/-- Levels with nothing but orbs. -/
def orbsOnly : LevelTable := fun _ => durableLevel none 40 0 40 [(.orb, 1)]

/-- A start that differs from others in its seed only. -/
def orbStart (seed : BitVec 32) : StartInput := ⟨1, seed, 0, 0, 0, false, 3, 0⟩

variable {start start' : StartInput} {outs outs' : List OutcomeEvent} {s s' : GameState}

/-- **No orb and no crate is taken twice**: those the ticks of a segment took, and all that still
    lies on the tracks, have ids of their own, below the next id. -/
theorem picked_once (h : Ticked A levels start outs s) :
    (pickIds (outs.map OutcomeEvent.what) ++ freeIds s).Nodup ∧
      ∀ i ∈ pickIds (outs.map OutcomeEvent.what) ++ freeIds s, i < s.nextId := by
  induction h with
  | start =>
      refine ⟨List.nodup_nil, ?_⟩
      simp [pickIds, freeIds, freeIn, allEntities, initialState]
  | @tick outs s h inputs tr r hstep ih =>
      by_cases hs : s.status = .running
      · have hgrown := (step_gives hs hstep).grown.add_left (pickIds (outs.map OutcomeEvent.what))
        rw [Multiset.coe_add] at hgrown
        obtain ⟨hnodup, hbound⟩ := hgrown.nodup ih.1 ih.2
        rw [← add_assoc, Multiset.coe_add, Multiset.coe_add] at hnodup hbound
        rw [List.map_append, pickIds_append]
        exact ⟨hnodup, hbound⟩
      · obtain ⟨_, rfl⟩ := step_stopped hs hstep
        rw [List.append_nil]
        exact ih

/-- An orb taken in the sixteenth tick. -/
theorem picked_once_orb :
    let p := tickAll (.exact 4) orbsOnly (List.replicate 18 []) (orbStart 0)
    pickIds (p.1.map OutcomeEvent.what) = [1] ∧ 1 ∉ freeIds p.2 ∧
      (pickIds (p.1.map OutcomeEvent.what) ++ freeIds p.2).Nodup :=
  ⟨by decide +kernel, by decide +kernel, (picked_once (ticked_tickAll _ _)).1⟩

/-- The course of a segment that no hit has stopped, and whether its level is done. -/
theorem Ticked.pace (h : Ticked A levels start outs s)
    (hgo : s.status = .running ∨ s.status = .levelDone) :
    courseOf s = (Course.next A levels)^[s.tick] (courseOf (initialState A levels start)) ∧
      (s.status = .levelDone ↔ 0 < s.tick ∧ (courseOf s).Ended A levels) := by
  induction h with
  | start => exact ⟨rfl, by simp [initialState]⟩
  | @tick outs s h inputs tr r hstep ih =>
      by_cases hs : s.status = .running
      · have st := step_gives hs hstep
        obtain ⟨hcourse, hended⟩ := st.course hgo
        rw [st.tick, Function.iterate_succ_apply', ← (ih (.inl hs)).1]
        exact ⟨hcourse, hended.trans (by simp)⟩
      · obtain ⟨_, rfl⟩ := step_stopped hs hstep
        exact ih hgo

/-- **Two runs of a level keep pace**: from starts that agree on where they are in it, states of the
    same tick have scrolled as far, have the same gates and merges ahead, and have both finished the
    level or neither, whatever their seeds, their players and what they were told. -/
theorem same_pace (hlevel : start'.level = start.level) (helapsed : start'.elapsed = start.elapsed)
    (hdistance : start'.distance = start.distance) (hboss : start'.boss = start.boss)
    (h : Ticked A levels start outs s) (h' : Ticked A levels start' outs' s')
    (hgo : s.status = .running ∨ s.status = .levelDone)
    (hgo' : s'.status = .running ∨ s'.status = .levelDone) (htick : s'.tick = s.tick) :
    courseOf s' = courseOf s ∧ (s'.status = .levelDone ↔ s.status = .levelDone) := by
  have hstart : courseOf (initialState A levels start') = courseOf (initialState A levels start) := by
    simp only [courseOf, initialState, hlevel, helapsed, hdistance, hboss]
  obtain ⟨hcourse, hdone⟩ := h.pace hgo
  obtain ⟨hcourse', hdone'⟩ := h'.pace hgo'
  have heq : courseOf s' = courseOf s := by rw [hcourse', htick, hstart, hcourse]
  exact ⟨heq, by rw [hdone', hdone, heq, htick]⟩

/-- A player who jumps, and one who stands still, in levels of different seeds. -/
theorem same_pace_orbs :
    let p := tickAll (.exact 4) orbsOnly (List.replicate 18 []) (orbStart 0)
    let q := tickAll (.exact 4) orbsOnly ([.player .jump] :: List.replicate 17 []) (orbStart 5)
    p.1 ≠ q.1 ∧ courseOf q.2 = courseOf p.2 := by
  intro p q
  have hp : p.2.status = .running := by decide +kernel
  have hq : q.2.status = .running := by decide +kernel
  have htick : q.2.tick = p.2.tick := by decide +kernel
  refine ⟨by decide +kernel, ?_⟩
  exact (@same_pace _ _ (orbStart 0) (orbStart 5) p.1 q.1 p.2 q.2 rfl rfl rfl rfl
    (ticked_tickAll _ _) (ticked_tickAll _ _) (.inl hp) (.inl hq) htick).1

end DevDashboard.Web.Replay
