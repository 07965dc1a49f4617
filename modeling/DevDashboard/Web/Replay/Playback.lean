/-
  File:      DevDashboard/Web/Replay/Playback.lean
  Subject:   WHERE A PLAYBACK IS, FRAME BY FRAME (runtime/game.ts, tape.ts).

  A playback follows the lineage of the game that left the tape. Between two of its frames it stands
  beside a state of the lineage (`Beside`), or it waits for a recorded resume (`Waits`). What lies
  ahead on the lineage decides what the tape has next: a resume at the very live tick
  (`resume_ahead`), or the same step that the playback takes (`step_ahead`).

  A resume that is due is repeated at the next frame, so a replay that the tab's closing had cut
  short is cut short here too. If two resumes are due at one live tick, the playback advances the
  first replay by a frame in between, which live play may not have done: what that frame draws is
  drawn later on the lineage (`Advances`).

  * `frameStep_track` -- **a frame** keeps the playback where it has to be, and brings it nearer to
    the end of the lineage (`Nearer`): by a small step of live play, or by a part of a montage that
    live play has skipped.
-/
import DevDashboard.Web.Replay.Lineage
import DevDashboard.Web.Replay.Montage

namespace DevDashboard.Web.Replay

open Lib Asking

variable {A : Arith} {levels : LevelTable} {g p f : Game}

/-! ## 1. Beside a live game -/

/-- What the display of a playback may be behind with: it does not pause, and it shows all of a
    montage. -/
def Phase.Behind (g : Game) (phase : Phase) : Prop :=
  phase = .playing ∧ g.phase = .paused ∨
    ∃ n, phase = .montage n ∧ g.phase = .tip g.run.start.level

/-- The playback stands beside live play. -/
structure Beside (T : Tape) (g p : Game) : Prop extends Tied T g p where
  phase : p.phase = g.phase ∧ Shared g.phase g.run p.run ∨ Phase.Behind g p.phase

theorem Beside.mirror {T : Tape} (h : Beside T g p) (hphase : p.phase = g.phase) :
    Mirror T g p := by
  refine ⟨h.toTied, hphase, ?_⟩
  rcases h.phase with h' | ⟨hp, hg⟩ | ⟨n, hp, hg⟩
  · exact h'.2
  · rw [hphase, hg] at hp
    cases hp
  · rw [hphase, hg] at hp
    cases hp

theorem Mirror.beside {T : Tape} (h : Mirror T g p) : Beside T g p :=
  ⟨h.toTied, .inl ⟨h.phase, h.shared⟩⟩

variable (A levels f) in
/-- What is still to come on the lineage of a game: `n` small steps. -/
structure Ahead (n : ℕ) (g : Game) : Prop where
  live : Live g
  path : Steps (Beat A levels) f n g

theorem Ahead.before {n : ℕ} (h : Ahead A levels f n g) : g.tape.Before f.tape :=
  (path_live h.path.path h.live).2

theorem Ahead.beat {n : ℕ} {g' : Game} (hl : Live g) (hb : Beat A levels g g')
    (hpath : Steps (Beat A levels) f n g') : Ahead A levels f n g' :=
  ⟨(hb.live hl).1, hpath⟩

/-- A step that leaves run and tape alone leaves the playback beside live play. -/
theorem Beside.quiet {T : Tape} {g' : Game} (h : Beside T g p) (hactive : p.phase ≠ .paused)
    (hstill : Still g g') (htape : g'.tape = g.tape) (hrun : g'.run = g.run)
    (hphase : Paused g.phase g'.phase) : Beside T g' p := by
  refine ⟨⟨⟨h.playback, h.tape, ?_, ?_, ?_, ?_⟩, ?_⟩, ?_⟩
  · rw [htape]
    exact h.source
  · rw [htape]
    exact h.inputs
  · rw [htape]
    exact h.restarts
  · rw [hstill.liveTick]
    exact h.liveTick
  · rw [hrun]
    exact h.run
  · unfold Phase.Behind
    rw [hrun]
    rcases hphase with hsame | ⟨hplay, hpause⟩ | ⟨hpause, hplay⟩
    · rw [hsame]
      exact h.phase
    · rcases h.phase with hp | ⟨hp, hg⟩ | ⟨n, hp, hg⟩
      · exact .inr (.inl ⟨hp.1.trans hplay, hpause⟩)
      · rw [hg] at hplay
        cases hplay
      · rw [hg] at hplay
        cases hplay
    · rcases h.phase with hp | ⟨hp, hg⟩ | ⟨n, hp, hg⟩
      · exact absurd (hp.1.trans hpause) hactive
      · rw [hplay]
        exact .inl ⟨hp, trivial⟩
      · rw [hg] at hpause
        cases hpause

/-! ## 2. What lies ahead -/

theorem Move.not_over {g' : Game} (h : Move A levels g g') (reason : Str) :
    g.phase ≠ .over_ reason := by
  intro hphase
  cases h with
  | skip hp _ _ _ _ =>
      rw [hphase] at hp
      cases hp
  | confirm hp _ =>
      rw [hphase] at hp
      rcases hp with ⟨level, hp⟩ | hp <;> cases hp
  | body hp _ =>
      rw [hphase] at hp
      cases hp
  | tick hp _ =>
      rw [hphase] at hp
      cases hp

/-- Past the end of a run nothing changes. -/
theorem over_ahead {reason : Str} (hpath : Relation.ReflTransGen (Beat A levels) g f)
    (hphase : g.phase = .over_ reason) :
    f.phase = .over_ reason ∧ f.run = g.run ∧ f.tape = g.tape := by
  induction hpath with
  | refl => exact ⟨hphase, rfl, rfl⟩
  | @tail c f _ hb ih =>
      obtain ⟨hc, hrun, htape⟩ := ih
      cases hb with
      | quiet _ ht hr hp =>
          refine ⟨?_, hr.trans hrun, ht.trans htape⟩
          rw [hc] at hp
          rcases hp with hp | ⟨hp, _⟩ | ⟨hp, _⟩
          · exact hp
          · cases hp
          · cases hp
      | move hm => exact absurd hc (hm.not_over reason)
      | jump hs _ _ =>
          have := hs.opened
          rw [hc] at this
          cases this

theorem Tape.Before.next {t T : Tape} (h : t.Before T) {r : Restart}
    (hr : T.restarts[t.restarts.length]? = some r) : t.liveTick ≤ r.liveTick := by
  obtain ⟨rest, hrest, hlive⟩ := h.restarts
  refine hlive r ?_
  rw [hrest, List.getElem?_append_right le_rfl, Nat.sub_self] at hr
  exact List.mem_of_getElem? hr

/-- The recorded resume at a live tick, behind `n` of them. -/
def Tape.dueAt (T : Tape) (n tick : ℕ) : Option Restart :=
  (T.restarts[n]?).filter fun r => r.liveTick = tick

theorem Bound.restartDue {T : Tape} (h : Bound T g p) :
    p.restartDue = T.dueAt g.tape.restarts.length g.liveTick := by
  unfold Game.restartDue Tape.dueAt
  rw [if_pos h.playback, h.tape, h.restarts, h.liveTick]

/-- A save that is resumed where live play stands, or after steps without ticks. -/
structure Resumed (A : Arith) (levels : LevelTable) (g : Game) (r : Restart) (g' : Game) : Prop where
  resumed : ∃ (s : Save) (x : Game) (tr : List (Draw × ℚ)), x.playback = false ∧
    (Game.resumeSaved A levels s x).Gives tr g' ∧ (levels s.body.start.level).durable = true ∧
    s.tape.inputs = g.tape.inputs ∧ s.tape.restarts = g.tape.restarts ∧
    s.tape.liveTick = g.liveTick ∧
    r = ⟨s.tape.liveTick, s.tape.impure.length, s.tape.chaos.length, s.body⟩

theorem Resumed.of_still {g₁ g' : Game} {r : Restart} (h : Resumed A levels g₁ r g')
    (hstill : Still g g₁) : Resumed A levels g r g' := by
  obtain ⟨s, x, tr, hx, hg, hd, hi, hrs, hl, hr⟩ := h
  obtain ⟨impure, chaos, ht⟩ := hstill.tape
  refine ⟨s, x, tr, hx, hg, hd, ?_, ?_, hl.trans hstill.liveTick, hr⟩
  · rw [hi, ht]
  · rw [hrs, ht]

theorem SavedAt.resumed {s : Save} {x g' : Game} {tr : List (Draw × ℚ)} (hs : SavedAt levels s g)
    (hl : Live g) (hx : x.playback = false) (hg : (Game.resumeSaved A levels s x).Gives tr g') :
    Resumed A levels g ⟨s.tape.liveTick, s.tape.impure.length, s.tape.chaos.length, s.body⟩ g' := by
  refine ⟨s, x, tr, hx, hg, hs.durable, ?_, ?_, ?_, rfl⟩
  · rw [hs.tape]
  · rw [hs.tape]
  · rw [hs.tape]
    exact hl.liveTick.symm

/-- **A resume that is due lies ahead.** -/
theorem resume_ahead {n : ℕ} (h : Ahead A levels f n g) {r : Restart}
    (hdue : f.tape.dueAt g.tape.restarts.length g.liveTick = some r) :
    ∃ g' m, m < n ∧ Resumed A levels g r g' ∧ Ahead A levels f m g' := by
  obtain ⟨hl, hpath⟩ := h
  obtain ⟨hr, htick⟩ := Option.filter_eq_some_iff.mp hdue
  replace htick : r.liveTick = g.liveTick := by simpa using htick
  clear hdue
  induction hpath with
  | here => simp at hr
  | @step n g g' hb hpath ih =>
      have hstill : Still g g' →
          ∃ g'' m, m < n + 1 ∧ Resumed A levels g r g'' ∧ Ahead A levels f m g'' := by
        intro hs
        obtain ⟨impure, chaos, ht⟩ := hs.tape
        obtain ⟨g'', m, hm, hg'', hahead⟩ := ih (hs.live hl) (by rw [ht]; exact hr)
          (htick.trans hs.liveTick.symm)
        exact ⟨g'', m, Nat.lt_succ_of_lt hm, hg''.of_still hs, hahead⟩
      cases hb with
      | quiet hs _ _ _ => exact hstill hs
      | move hm =>
          rcases hm.still with hs | ⟨_, hs⟩
          · exact hstill hs
          · -- From a tick on, resumes are recorded at later live ticks.
            have htape := takeInputs_tape hl
            have hnext := (hs.before.trans (path_live hpath.path (hs.live (live_takeInputs hl))).2).next
              (r := r) (by rw [htape]; exact hr)
            rw [htape, htick] at hnext
            exact absurd hnext (Nat.not_succ_le_self _)
      | @jump s x tr hs hx hg =>
          have hbefore := (path_live hpath.path (Beat.live (.jump hs hx hg) hl).1).2
          obtain ⟨impure, chaos, ht⟩ := (steady_still.restoreSave A levels _ _ _ g' hg).tape
          obtain ⟨rest, hrest, _⟩ := hbefore.restarts
          rw [hrest, ht, ← hs.tape] at hr
          obtain rfl : _ = r := by simpa using hr
          exact ⟨g', n, Nat.lt_succ_self n, hs.resumed hl hx hg, .beat hl (.jump hs hx hg) hpath⟩

theorem Beside.over {T : Tape} {reason : Str} (h : Beside T g p) (hphase : g.phase = .over_ reason) :
    p.phase = .over_ reason := by
  rcases h.phase with hp | ⟨_, hg⟩ | ⟨n, _, hg⟩
  · exact hp.1.trans hphase
  · rw [hphase] at hg
    cases hg
  · rw [hphase] at hg
    cases hg

/-- **The next step that plays**, where no resume is due: live play may pause first. -/
theorem step_ahead {reason : Str} (hover : f.phase = .over_ reason) {n : ℕ}
    (h : Ahead A levels f n g)
    (hdue : f.tape.dueAt g.tape.restarts.length g.liveTick = none ∨ g.phase.open_ = false)
    (hb : Beside f.tape g p) (hactive : p.phase ≠ .paused) (hgo : p.phase ≠ .over_ reason) :
    ∃ g₁ g' m, m < n ∧ Live g₁ ∧ Beside f.tape g₁ p ∧ Move A levels g₁ g' ∧
      Ahead A levels f m g' := by
  obtain ⟨hl, hpath⟩ := h
  induction hpath with
  | here => exact absurd (hb.over hover) hgo
  | @step n g g' hbeat hpath ih =>
      have hl' := (hbeat.live hl).1
      cases hbeat with
      | quiet hs htape hrun hphase =>
          have hdue' : f.tape.dueAt g'.tape.restarts.length g'.liveTick = none ∨
              g'.phase.open_ = false := by
            rw [htape, hs.liveTick]
            refine hdue.imp_right fun hopen => ?_
            rcases hphase with hsame | ⟨hplay, _⟩ | ⟨hpause, _⟩
            · rw [hsame]
              exact hopen
            · rw [hplay] at hopen
              cases hopen
            · rw [hpause] at hopen
              cases hopen
          obtain ⟨g₁, g'', m, hm, hrest⟩ := ih hdue' (hb.quiet hactive hs htape hrun hphase) hl'
          exact ⟨g₁, g'', m, Nat.lt_succ_of_lt hm, hrest⟩
      | move hm => exact ⟨g, g', n, Nat.lt_succ_self n, hl, hb, hm, hl', hpath⟩
      | @jump s x tr hs hx hg =>
          exfalso
          rcases hdue with hdue | hopen
          · have hbefore := (path_live hpath.path hl').2
            obtain ⟨impure, chaos, ht⟩ := (steady_still.restoreSave A levels _ _ _ g' hg).tape
            obtain ⟨rest, hrest, _⟩ := hbefore.restarts
            unfold Tape.dueAt at hdue
            rw [hrest, ht, ← hs.tape] at hdue
            simp [hs.tape, hl.liveTick] at hdue
          · rw [hs.opened] at hopen
            cases hopen

/-! ## 3. What a playback has to go -/

/-- What the display of a playback may be behind by: a montage. -/
def Game.lag (p : Game) : ℕ :=
  match p.phase with
  | .montage _ => 1 + p.run.montage.elim 0 Montage.left
  | _ => 0

/-- Fewer steps are ahead, or the display is less behind. -/
def Nearer : ℕ × ℕ → ℕ × ℕ → Prop := Prod.Lex (· < ·) (· < ·)

theorem nearer_wf : WellFounded Nearer := WellFounded.prod_lex Nat.lt_wfRel.wf Nat.lt_wfRel.wf

theorem nearer_of_fewer {x y : ℕ × ℕ} (h : y.1 < x.1) : Nearer y x :=
  Prod.lex_def.mpr (.inl h)

theorem nearer_of_less {x y : ℕ × ℕ} (h : y.1 ≤ x.1) (h' : y.2 < x.2) : Nearer y x :=
  Prod.lex_def.mpr ((Nat.lt_or_eq_of_le h).imp_right fun heq => ⟨heq, h'⟩)

/-! ## 4. The playback's frame -/

/-- The playback waits for a resume at the live tick of `g`; what it draws until then does not
    matter. -/
structure Waits (T : Tape) (g p : Game) : Prop where
  bound : Bound T g (p.seek g.tape)
  source : ∃ i c, p.source = .player i c false
  phase : p.phase = .replaying ∨ p.phase = .playing
  due : (T.dueAt g.tape.restarts.length g.liveTick).isSome = true

variable (A levels f) in
/-- **Where a playback is** between two frames, and how far it has to go. -/
def Track (x : ℕ × ℕ) (p : Game) : Prop :=
  ∃ g, Ahead A levels f x.1 g ∧ (Beside f.tape g p ∧ p.lag < x.2 ∨ Waits f.tape g p)

theorem Bound.seek_eq {T : Tape} (h : Bound T g p) : p.seek g.tape = p := by
  unfold Game.seek
  rw [← h.source]

/-- **A recorded resume is repeated.** -/
theorem resume_echo {T : Tape} (hb : Bound T g (p.seek g.tape)) {r : Restart} {g' : Game}
    (hr : Resumed A levels g r g') (hT : g'.tape.Before T) :
    ∃ p', Game.restoreSave A levels r.save { p with
      restartCursor := p.restartCursor + 1, source := .player r.impureAt r.chaosAt false } =
        .done p' ∧ Mirror T g' p' := by
  obtain ⟨s, x, tr, hx, hg, hd, hinputs, hrestarts, hlive, rfl⟩ := hr
  have hcursor : p.restartCursor = g.tape.restarts.length := hb.restarts
  have hbound : Bound T
      { x with
        savedRun := none
        tape := { s.tape with restarts := s.tape.restarts ++
          [⟨s.tape.liveTick, s.tape.impure.length, s.tape.chaos.length, s.body⟩] }
        liveTick := s.tape.liveTick
        source := .recorder }
      { p with
        restartCursor := p.restartCursor + 1
        source := .player s.tape.impure.length s.tape.chaos.length false } := by
    refine ⟨hb.playback, hb.tape, rfl, ?_, ?_, hb.liveTick.trans hlive.symm⟩
    · exact hb.inputs.trans (congrArg List.length hinputs.symm)
    · dsimp only
      rw [hcursor, hrestarts, List.length_append, List.length_singleton]
  exact restoreSave_echo hbound rfl hd tr g' hg hT

/-- A game whose replay has just started. -/
structure Fresh (A : Arith) (levels : LevelTable) (g : Game) : Prop where
  phase : g.phase = .replaying
  replayer : g.run.replayer =
    some (createReplayer A levels g.run.start g.run.history g.run.crashTick)
  speed : g.run.replayTicksPerFrame = Game.replaySpeed A g.run.crashTick
  rewind : g.run.rewind = .reset (initialState A levels g.run.start)

/-- What a resume is to the state it leads to. -/
theorem Resumed.fresh {r : Restart} {g' : Game} (h : Resumed A levels g r g') :
    Fresh A levels g' ∧ g'.run.start = r.save.start ∧ g'.run.history = r.save.history ∧
      g'.run.crashTick = r.save.tick := by
  obtain ⟨s, x, tr, hx, hg, hd, _, _, _, rfl⟩ := h
  unfold Game.resumeSaved Game.restoreSave Game.restartFromHistory at hg
  obtain ⟨t, u, y, rfl, hy, hg⟩ := gives_bind.mp hg
  obtain ⟨rfl, rfl⟩ := gives_done.mp hg
  obtain ⟨impure, chaos, source, hy⟩ := (drawing_spec _ _ t y hy).1.frame
  have hstart : (levels y.2.run.start.level).durable = true := by rw [hy]; exact hd
  unfold Game.startReplay
  dsimp only
  rw [if_pos hstart]
  refine ⟨⟨setPhase_phase _, ?_, ?_, ?_⟩, ?_, ?_, ?_⟩
  · rw [setPhase_run]
  · rw [setPhase_run]
  · rw [setPhase_run]
    rfl
  · rw [setPhase_run]
    dsimp only
    rw [hy]
  · rw [setPhase_run]
    dsimp only
    rw [hy]
  · rw [setPhase_run]
    dsimp only
    rw [hy]

/-- The phases in which the display may be behind. -/
def Phase.lags : Phase → Bool
  | .playing | .montage _ => true
  | _ => false

theorem Beside.level {T : Tape} (h : Beside T g p) (hp : p.phase.lags = false) :
    p.phase = g.phase := by
  rcases h.phase with h | ⟨h, _⟩ | ⟨n, h, _⟩
  · exact h.1
  · rw [h] at hp
    cases hp
  · rw [h] at hp
    cases hp

/-- **Cards are confirmed**: one more step is done, or a resume is due. -/
theorem confirm_ahead {reason : Str} (hover : f.phase = .over_ reason) {n : ℕ}
    (ha : Ahead A levels f n g) (hb : Beside f.tape g p ∨ Waits f.tape g p) :
    ∃ p' g' m, Game.confirm A levels p = .done p' ∧ Ahead A levels f m g' ∧
      (Beside f.tape g' p' ∨ Waits f.tape g' p') ∧
      (p' = p ∧ g' = g ∧ m = n ∧ (∀ level, p.phase ≠ .tip level) ∧ p.phase ≠ .lost ∨ m < n ∨
        m = n ∧ (f.tape.dueAt g'.tape.restarts.length g'.liveTick).isSome = true) := by
  have hstay : (∀ level, p.phase ≠ .tip level) → p.phase ≠ .lost → ∃ p' g' m,
      Game.confirm A levels p = .done p' ∧ Ahead A levels f m g' ∧
      (Beside f.tape g' p' ∨ Waits f.tape g' p') ∧
      (p' = p ∧ g' = g ∧ m = n ∧ (∀ level, p.phase ≠ .tip level) ∧ p.phase ≠ .lost ∨ m < n ∨
        m = n ∧ (f.tape.dueAt g'.tape.restarts.length g'.liveTick).isSome = true) := by
    intro htip hlost
    refine ⟨p, g, n, ?_, ha, hb, .inl ⟨rfl, rfl, rfl, htip, hlost⟩⟩
    unfold Game.confirm
    split
    · exact absurd ‹_› (htip _)
    · exact absurd ‹_› hlost
    · rfl
  rcases hb with hb | hw
  · by_cases hcard : (∃ level, p.phase = .tip level) ∨ p.phase = .lost
    · by_cases hdue : f.tape.dueAt g.tape.restarts.length g.liveTick = none ∨ g.phase.open_ = false
      · obtain ⟨g₁, g', m, hmn, hl, hb₁, hm, ha'⟩ := step_ahead hover ha hdue hb
          (by rcases hcard with ⟨level, h⟩ | h <;> rw [h] <;> nofun)
          (by rcases hcard with ⟨level, h⟩ | h <;> rw [h] <;> nofun)
        have hphase := hb₁.level (by rcases hcard with ⟨level, h⟩ | h <;> rw [h] <;> rfl)
        rw [hphase] at hcard
        cases hm with
        | confirm _ hg =>
            obtain ⟨p', hp', hmirror⟩ := confirm_echo (hb₁.mirror hphase) hl.source _ g' hg ha'.before
            exact ⟨p', g', m, hp', ha', .inl hmirror.beside, .inr (.inl hmn)⟩
        | skip hp _ _ _ _ =>
            rw [hp] at hcard
            rcases hcard with ⟨level, hc⟩ | hc <;> cases hc
        | body hp _ =>
            rcases hcard with ⟨level, hc⟩ | hc <;> rw [hc] at hp <;> cases hp
        | tick hp _ =>
            rw [hp] at hcard
            rcases hcard with ⟨level, hc⟩ | hc <;> cases hc
      · -- A resume is due: the tip is confirmed, and then everything is replaced.
        obtain ⟨hdue, hopen⟩ := not_or.mp hdue
        have hphase := hb.level (by rcases hcard with ⟨level, h⟩ | h <;> rw [h] <;> rfl)
        have hsome := Option.isSome_iff_ne_none.mpr hdue
        rcases hcard with ⟨level, hc⟩ | hc
        · refine ⟨p.setPhase .playing, g, n, ?_, ha, .inr ?_, .inr (.inr ⟨rfl, hsome⟩)⟩
          · unfold Game.confirm
            rw [hc]
          · obtain ⟨pending, hp⟩ := setPhase_spec p .playing
            rw [hp]
            refine ⟨?_, ⟨_, _, hb.source⟩, .inr rfl, hsome⟩
            exact ⟨hb.playback, hb.tape, rfl, hb.inputs, hb.restarts, hb.liveTick⟩
        · rw [← hphase, hc] at hopen
          exact absurd rfl hopen
    · exact hstay (fun level h => hcard (.inl ⟨level, h⟩)) fun h => hcard (.inr h)
  · rcases hw.phase with hp | hp <;> exact hstay (fun level h => by rw [hp] at h; cases h) fun h => by
      rw [hp] at h
      cases h

/-- The phases in which a frame does something. -/
def Phase.plays (phase : Phase) : Bool := phase.moves || decide (phase = .playing)

variable (A levels f) in
/-- Where a playback is once its cards and resumes are done. -/
def Ready (x : ℕ × ℕ) (p : Game) : Prop :=
  ∃ g, Ahead A levels f x.1 g ∧ Beside f.tape g p ∧ p.lag < x.2 ∧
    (f.tape.dueAt g.tape.restarts.length g.liveTick = none ∨ Fresh A levels g ∨
      p.phase.plays = false)

theorem Track.source {x : ℕ × ℕ} (h : Track A levels f x p) : ∃ i c, p.source = .player i c false := by
  obtain ⟨g, _, ⟨hb, _⟩ | hw⟩ := h
  · exact ⟨_, _, hb.source⟩
  · exact hw.source

theorem Track.beside {n : ℕ} (ha : Ahead A levels f n g) (hb : Beside f.tape g p) :
    Track A levels f (n, p.lag + 1) p := ⟨g, ha, .inl ⟨hb, Nat.lt_succ_self _⟩⟩

/-- What waits for a resume is bound to live play but for the values. -/
theorem Waits.or_bound {T : Tape} (h : Beside T g p ∨ Waits T g p) : Bound T g (p.seek g.tape) := by
  rcases h with hb | hw
  · rw [hb.toBound.seek_eq]
    exact hb.toBound
  · exact hw.bound

/-- A resume that is due is repeated. -/
theorem restart_ready {n : ℕ} (ha : Ahead A levels f n g) (hb : Bound f.tape g (p.seek g.tape))
    {r : Restart} (hdue : f.tape.dueAt g.tape.restarts.length g.liveTick = some r) :
    ∃ p' y, Game.restoreSave A levels r.save { p with
      restartCursor := p.restartCursor + 1, source := .player r.impureAt r.chaosAt false } =
        .done p' ∧ Ready A levels f y p' ∧ y.1 < n := by
  obtain ⟨g', m, hm, hr, ha'⟩ := resume_ahead ha hdue
  obtain ⟨p', hp', hmirror⟩ := resume_echo hb hr ha'.before
  exact ⟨p', (m, p'.lag + 1), hp', ⟨g', ha', hmirror.beside, Nat.lt_succ_self _, .inr (.inl hr.fresh.1)⟩, hm⟩

/-- **Cards and recorded resumes.** -/
theorem autoplay_track {reason : Str} (hover : f.phase = .over_ reason) {x : ℕ × ℕ}
    (h : Track A levels f x p) :
    ∃ p' y, Game.autoplay A levels p = .done p' ∧ Ready A levels f y p' ∧
      (p' = p ∧ y = x ∧ (∀ level, p.phase ≠ .tip level) ∧ p.phase ≠ .lost ∨ y.1 < x.1) := by
  obtain ⟨g, ha, hb⟩ := id h
  have hor : Beside f.tape g p ∨ Waits f.tape g p := hb.imp_left And.left
  obtain ⟨p₁, g₁, n₁, hp₁, ha₁, hor₁, hprogress⟩ := confirm_ahead hover ha hor
  unfold Game.autoplay
  rw [hp₁, done_bind]
  by_cases hend : (∃ reason, p.phase = .over_ reason) ∨ p.phase = .title
  · have hsame : p₁ = p := by
      unfold Game.confirm at hp₁
      rcases hend with ⟨reason, hend⟩ | hend <;> rw [hend] at hp₁ <;> injection hp₁ with hp₁ <;>
        exact hp₁.symm
    subst hsame
    have hbeside : Beside f.tape g p₁ ∧ p₁.lag < x.2 := by
      refine hb.resolve_right fun hw => ?_
      rcases hw.phase with hp | hp <;> rw [hp] at hend <;> rcases hend with ⟨reason, hend⟩ | hend <;>
        cases hend
    refine ⟨p₁, x, ?_, ⟨g, ha, hbeside.1, hbeside.2, .inr (.inr ?_)⟩, .inl ⟨rfl, rfl, ?_, ?_⟩⟩
    · rcases hend with ⟨reason, hend⟩ | hend <;> rw [hend]
    · rcases hend with ⟨reason, hend⟩ | hend <;> rw [hend] <;> rfl
    · rcases hend with ⟨reason, hend⟩ | hend <;> rw [hend] <;> nofun
    · rcases hend with ⟨reason, hend⟩ | hend <;> rw [hend] <;> nofun
  · obtain ⟨i, c, hsource⟩ : ∃ i c, p₁.source = .player i c false := by
      rcases hor₁ with hb | hw
      · exact ⟨_, _, hb.source⟩
      · exact hw.source
    have hbound := Waits.or_bound hor₁
    have hrestart : p₁.restartDue = f.tape.dueAt g₁.tape.restarts.length g₁.liveTick :=
      hbound.restartDue
    rw [hrestart, hsource]
    cases hdue : f.tape.dueAt g₁.tape.restarts.length g₁.liveTick with
    | none =>
        have hb₁ : Beside f.tape g₁ p₁ := by
          refine hor₁.resolve_right fun hw => ?_
          have := hw.due
          rw [hdue] at this
          cases this
        rcases hprogress with ⟨rfl, rfl, rfl, htip, hlost⟩ | hlt | ⟨_, hsome⟩
        · have hlag : p₁.lag < x.2 := (hb.resolve_right fun hw => by
            have := hw.due
            rw [hdue] at this
            cases this).2
          refine ⟨p₁, x, ?_, ⟨g₁, ha, hb₁, hlag, .inl hdue⟩, .inl ⟨rfl, rfl, htip, hlost⟩⟩
          generalize p₁.phase = phase
          cases phase <;> rfl
        · refine ⟨p₁, (n₁, p₁.lag + 1), ?_, ⟨g₁, ha₁, hb₁, Nat.lt_succ_self _, .inl hdue⟩, .inr hlt⟩
          generalize p.phase = phase
          cases phase <;> rfl
        · rw [hdue] at hsome
          cases hsome
    | some r =>
        have hle : n₁ ≤ x.1 := by
          rcases hprogress with ⟨_, _, rfl, _⟩ | hlt | ⟨rfl, _⟩
          · exact le_rfl
          · exact hlt.le
          · exact le_rfl
        obtain ⟨p', y, hp', hready, hlt⟩ := restart_ready ha₁ hbound hdue
        refine ⟨p', y, ?_, hready, .inr (Nat.lt_of_lt_of_le hlt hle)⟩
        rw [← hp']
        generalize p.phase = phase at hend
        cases phase <;> first | rfl | exact absurd (.inr rfl) hend | exact absurd (.inl ⟨_, rfl⟩) hend

theorem Move.not_paused {g' : Game} (h : Move A levels g g') : g.phase ≠ .paused := by
  intro hphase
  cases h with
  | skip hp _ _ _ _ =>
      rw [hphase] at hp
      cases hp
  | confirm hp _ =>
      rw [hphase] at hp
      rcases hp with ⟨level, hp⟩ | hp <;> cases hp
  | body hp _ =>
      rw [hphase] at hp
      cases hp
  | tick hp _ =>
      rw [hphase] at hp
      cases hp

/-- A step that plays, of a game in which ticks are due. -/
theorem Move.ticked {g' : Game} (h : Move A levels g g') (hphase : g.phase = .playing) :
    ∃ today tr, (Game.tick A levels today g).Gives tr g' := by
  cases h with
  | skip hp _ _ _ _ =>
      rw [hphase] at hp
      cases hp
  | confirm hp _ =>
      rw [hphase] at hp
      rcases hp with ⟨level, hp⟩ | hp <;> cases hp
  | body hp _ =>
      rw [hphase] at hp
      cases hp
  | tick _ hg => exact ⟨_, _, hg⟩

/-- **The ticks of a frame**: a tick for a tick, until a resume is due. -/
theorem ticks_track {reason : Str} (hover : f.phase = .over_ reason) (today : Str) (k : ℕ) {n : ℕ}
    (ha : Ahead A levels f n g) (hb : Beside f.tape g p) :
    ∃ p' g' m, Game.ticks A levels today k p = .done p' ∧ Ahead A levels f m g' ∧
      Beside f.tape g' p' ∧ (m < n ∨ m = n ∧ p' = p ∧ (0 < k → p.phase = .playing →
        f.tape.dueAt g.tape.restarts.length g.liveTick ≠ none)) := by
  induction k generalizing g p n with
  | zero => exact ⟨p, g, n, rfl, ha, hb, .inr ⟨rfl, rfl, fun h => absurd h (lt_irrefl 0)⟩⟩
  | succ k ih =>
      unfold Game.ticks
      rw [hb.toBound.restartDue]
      by_cases hplay : p.phase = .playing ∧
          f.tape.dueAt g.tape.restarts.length g.liveTick = none
      · rw [hplay.1, hplay.2]
        obtain ⟨g₁, g', m, hm, hl, hb₁, hmove, ha'⟩ := step_ahead hover ha (.inl hplay.2) hb
          (fun h => by cases hplay.1.symm.trans h) (fun h => by cases hplay.1.symm.trans h)
        have hphase : p.phase = g₁.phase := by
          rcases hb₁.phase with h | ⟨_, h⟩ | ⟨k, h, _⟩
          · exact h.1
          · exact absurd h hmove.not_paused
          · rw [hplay.1] at h
            cases h
        have hplay₁ := hphase.symm.trans hplay.1
        obtain ⟨today', tr, hg⟩ := hmove.ticked hplay₁
        obtain ⟨p', hp', hmirror⟩ := tick_echo (hb₁.mirror hphase) hl hplay₁ _ today tr g' hg ha'.before
        obtain ⟨p'', g'', m', hp'', ha'', hb'', hmore⟩ := ih ha' hmirror.beside
        dsimp only
        rw [hp', done_bind]
        refine ⟨p'', g'', m', hp'', ha'', hb'', .inl ?_⟩
        rcases hmore with hlt | ⟨rfl, _⟩
        · exact hlt.trans hm
        · exact hm
      · refine ⟨p, g, n, ?_, ha, hb, .inr ⟨rfl, rfl, fun _ h h' => hplay ⟨h, h'⟩⟩⟩
        generalize f.tape.dueAt g.tape.restarts.length g.liveTick = due at hplay
        generalize p.phase = phase at hplay
        split
        · exact absurd ⟨rfl, rfl⟩ hplay
        · rfl

/-! ## 5. A replay that is cut short -/

/-- A program that draws at most one chaos value. -/
def Once {α : Type} (q : Asking Draw ℚ α) : Prop :=
  (∃ a, q = .done a) ∨ ∃ k : ℚ → α, q = .ask .chaos fun v => .done (k v)

theorem scheduleNext_once (level : Level) (tick elapsed : ℕ) :
    Once (scheduleNext A levels level tick elapsed) := by
  unfold scheduleNext
  split
  · exact .inl ⟨_, rfl⟩
  · exact .inr ⟨_, rfl⟩

theorem chaosStart_once (level : Level) (firstOfLevel : Bool) (elapsed : ℕ) :
    Once (chaosStart A levels level firstOfLevel elapsed) := by
  unfold chaosStart
  split
  · exact .inl ⟨_, rfl⟩
  · exact .inr ⟨_, rfl⟩
  · exact scheduleNext_once level 0 elapsed

theorem Once.asks {α : Type} {q : Asking Draw ℚ α} (h : Once q) : q.Asks (· = .chaos) := by
  rcases h with ⟨a, rfl⟩ | ⟨k, rfl⟩
  · exact .done a
  · exact .ask rfl fun v => .done _

theorem replayTicks_asks (n : ℕ) (r : Replayer) (rewind : RewindBuffer) :
    (Game.replayTicks A levels n r rewind).Asks (· = .impure) := by
  have hports : ∀ history port, (replayPorts history port).Asks (· = .impure) := by
    intro history port
    cases port with
    | impure => exact .query rfl
    | crateValue id =>
        unfold replayPorts
        dsimp only
        split
        · exact .done _
        · exact .query rfl
  have hadvance : ∀ r : Replayer, (r.advance A levels 1).Asks (· = .impure) := by
    intro r
    unfold Replayer.advance
    split
    · exact .done _
    · exact Asks.bind (Asks.bind (.via (hports _)) fun next => .done _) fun r' => .done _
  induction n generalizing r rewind with
  | zero => exact .done _
  | succ n ih =>
      unfold Game.replayTicks
      split
      · exact .done _
      · exact (hadvance r).bind fun r' => ih r' _

/-- Chaos values leave the others alone. -/
theorem drawing_impure_kept {α : Type} {q : Asking Draw ℚ α} (h : q.Asks (· = .chaos)) (g : Game) :
    (Game.drawing q g).Always fun x => x.2.tape.impure = g.tape.impure := by
  induction h generalizing g with
  | done a => exact always_done.mpr rfl
  | @ask q next hq _ ih =>
      subst hq
      refine Always.bind (P := fun x => x.2.tape.impure = g.tape.impure) ?_ fun x hx =>
        (ih x.1 x.2).mono fun y hy => hy.trans hx
      unfold Game.draw
      cases g.source with
      | recorder => exact always_ask.mpr fun v => always_done.mpr rfl
      | player i c e =>
          dsimp only
          split <;> exact always_done.mpr rfl

/-- **Impure values alone**: told them from the tape, the playback is done with the same, wherever
    it is with the chaos values. -/
theorem drawing_impure {α : Type} {q : Asking Draw ℚ α} (h : q.Asks (· = .impure)) {T : Tape} {k : Game}
    (hs : k.source = .recorder) (ht : p.tape = T) {c : ℕ}
    (hp : p.source = .player k.tape.impure.length c false) {tr : List (Draw × ℚ)} {x : α × Game}
    (hx : (Game.drawing q k).Gives tr x) (hT : x.2.tape.Before T) :
    Game.drawing q p = .done (x.1, { p with source := .player x.2.tape.impure.length c false }) ∧
      x.2.tape.chaos = k.tape.chaos ∧ x.2.source = .recorder := by
  induction h generalizing k p tr with
  | done a =>
      obtain ⟨rfl, rfl⟩ := gives_done.mp hx
      rw [Game.drawing, ← hp]
      exact ⟨rfl, rfl, hs⟩
  | @ask q next hq _ ih =>
      subst hq
      obtain ⟨t, u, y, rfl, hy, hx⟩ := gives_bind.mp hx
      have hmore := (steady_still.drawing (next y.1) y.2 u x hx).before
      unfold Game.draw at hy
      simp only [hs] at hy
      obtain ⟨v, tl, rfl, hdone⟩ := gives_ask.mp hy
      obtain ⟨rfl, rfl⟩ := gives_done.mp hdone
      have hnext : p.draw .impure = .done (toUnit (quantise v),
          { p with source := .player (k.tape.impure.length + 1) c false }) := by
        unfold Game.draw
        simp only [hp, ht, getElem?_noted (hmore.impure.trans hT.impure)]
      rw [Game.drawing, hnext, done_bind]
      exact @ih (toUnit (quantise v)) { p with source := .player (k.tape.impure.length + 1) c false }
        { k with
          tape := { k.tape with impure := k.tape.impure ++ [quantise v] }
          source := .recorder } rfl ht (by rw [List.length_append, List.length_singleton]) u hx

/-- **One chaos value**: the playback is told some value, if live play was told one later. -/
theorem drawing_once {α : Type} {q : Asking Draw ℚ α} (h : Once q) {T : Tape} {k : Game}
    {tr : List (Draw × ℚ)} {x : α × Game} (hx : (Game.drawing q k).Gives tr x)
    (hT : x.2.tape.Before T) (hs : k.source = .recorder) {i c : ℕ} (hc : c ≤ k.tape.chaos.length)
    (ht : p.tape = T) (hp : p.source = .player i c false) :
    ∃ a c', Game.drawing q p = .done (a, { p with source := .player i c' false }) := by
  rcases h with ⟨a, rfl⟩ | ⟨f, rfl⟩
  · refine ⟨a, c, ?_⟩
    rw [Game.drawing, ← hp]
  · obtain ⟨t, u, y, rfl, hy, hx⟩ := gives_bind.mp hx
    obtain ⟨rfl, rfl⟩ := gives_done.mp hx
    unfold Game.draw at hy
    simp only [hs] at hy
    obtain ⟨v, tl, rfl, hdone⟩ := gives_ask.mp hy
    obtain ⟨rfl, rfl⟩ := gives_done.mp hdone
    have hlt : c < T.chaos.length := by
      have := hT.chaos.length_le
      simp only [List.length_append, List.length_singleton] at this
      exact Nat.lt_of_le_of_lt hc this
    refine ⟨f (toUnit T.chaos[c]), c + 1, ?_⟩
    rw [Game.drawing]
    unfold Game.draw
    simp only [hp, ht, List.getElem?_eq_getElem hlt]
    rfl

@[simp] theorem setPhase_source (phase : Phase) : (g.setPhase phase).source = g.source := by
  obtain ⟨pending, h⟩ := setPhase_spec g phase
  rw [h]

@[simp] theorem save_source : (g.save levels).source = g.source := by
  obtain ⟨store, h⟩ := save_spec levels g
  rw [h]

/-- The same, where play goes on afterwards. -/
theorem Once.plays {α : Type} {q : Asking Draw ℚ α} (h : Once q) {T : Tape} {k : Game}
    {tr : List (Draw × ℚ)} {x : α × Game} (hx : (Game.drawing q k).Gives tr x)
    (hT : x.2.tape.Before T) (hs : k.source = .recorder) {i c : ℕ} (hc : c ≤ k.tape.chaos.length)
    (ht : p.tape = T) (hp : p.source = .player i c false) {w : α × Game → Game}
    (hw : ∀ x, (w x).source = x.2.source ∧ (w x).phase = .playing) :
    ∃ p', (Game.drawing q p >>= fun x => .done (w x)) = .done p' ∧
      (∃ i c, p'.source = .player i c false) ∧ (p'.phase = .replaying ∨ p'.phase = .playing) := by
  obtain ⟨a, c', hdone⟩ := drawing_once h hx hT hs hc ht hp
  rw [hdone, done_bind]
  exact ⟨_, rfl, ⟨_, _, (hw _).1⟩, .inr (hw _).2⟩

variable (A levels) in
/-- The replay of `g` is advanced by a frame in `k`, later on the lineage. -/
structure Advances (T : Tape) (g k : Game) : Prop where
  fresh : Fresh A levels k
  source : k.source = .recorder
  start : k.run.start = g.run.start
  history : k.run.history = g.run.history
  crashTick : k.run.crashTick = g.run.crashTick
  impure : k.tape.impure = g.tape.impure
  chaos : g.tape.chaos.length ≤ k.tape.chaos.length
  ahead : ∃ tr k', (Game.advanceReplay A levels k).Gives tr k' ∧ k'.tape.Before T

/-- What comes after the ticks of a replay writes on the tape. -/
theorem advanceReplay_rest {x : (Replayer × RewindBuffer) × Game} {tr : List (Draw × ℚ)} {k' : Game}
    (h : (let r := x.1.1
      let g := x.2
      let run := { g.run with state := r.state, rewind := x.1.2 }
      if r.done = false then
        (Asking.done { g with run := { run with replayer := some r } } : Asking Draw ℚ Game)
      else
        let g := { g with run := { run with replayer := none } }
        match r.result with
        | .ok state => Game.replayed A levels state g
        | .diverged i state => Game.incident A levels i state g).Gives tr k') :
    x.2.tape.Before k'.tape := by
  dsimp only at h
  split at h
  · obtain ⟨rfl, rfl⟩ := gives_done.mp h
    exact .refl _
  · split at h
    · exact (steady_still.replayed A levels _ _ tr k' h).before
    · exact (steady_still.incident A levels _ _ _ tr k' h).before

/-- **The playback advances a replay too far**: it may draw another chaos value than live play, but
    there is one. -/
theorem Advances.advanceReplay {T : Tape} {k : Game} (h : Advances A levels T g k)
    (hb : Beside T g p) (hf : Fresh A levels g) :
    ∃ p', Game.advanceReplay A levels p = .done p' ∧ (∃ i c, p'.source = .player i c false) ∧
      (p'.phase = .replaying ∨ p'.phase = .playing) := by
  obtain ⟨hphase, hreplayer, hspeed⟩ : p.phase = .replaying ∧
      p.run.replayer = g.run.replayer ∧
      p.run.replayTicksPerFrame = g.run.replayTicksPerFrame := by
    rcases hb.phase with ⟨hp, hs⟩ | ⟨_, hg⟩ | ⟨n, _, hg⟩
    · rw [hf.phase] at hp hs
      exact ⟨hp, hs.2.1, hs.2.2⟩
    · rw [hf.phase] at hg
      cases hg
    · rw [hf.phase] at hg
      cases hg
  have hrewind : p.run.rewind = g.run.rewind := by
    obtain ⟨other, ho⟩ := hb.run
    rw [ho]
    rfl
  obtain ⟨tr, k', hk, hT⟩ := h.ahead
  unfold Game.advanceReplay at hk ⊢
  rw [h.fresh.replayer, h.fresh.speed, h.fresh.rewind, h.start, h.history, h.crashTick] at hk
  rw [hreplayer, hspeed, hrewind, hf.replayer, hf.speed, hf.rewind]
  obtain ⟨t, u, x, rfl, hx, hrest⟩ := gives_bind.mp hk
  have hbefore := (advanceReplay_rest hrest).trans hT
  obtain ⟨hdrawn, hchaos, hsource⟩ := drawing_impure (replayTicks_asks _ _ _) h.source hb.tape
    (hb.source.trans (by rw [h.impure])) hx hbefore
  dsimp only at hrest ⊢
  rw [hdrawn, done_bind]
  have hlater : g.tape.chaos.length ≤ x.2.tape.chaos.length := by
    rw [hchaos]
    exact h.chaos
  by_cases hdone : x.1.1.done = false
  · rw [if_pos hdone]
    exact ⟨_, rfl, ⟨_, _, rfl⟩, .inl hphase⟩
  · rw [if_neg hdone] at hrest ⊢
    cases hres : x.1.1.result with
    | ok state =>
        rw [hres] at hrest
        unfold Game.replayed at hrest ⊢
        obtain ⟨t, u, y, rfl, hy, hrest⟩ := gives_bind.mp hrest
        obtain ⟨rfl, rfl⟩ := gives_done.mp hrest
        rw [setPhase_tape] at hT
        refine (scheduleNext_once _ _ _).plays hy hT hsource hlater ?_ (i := x.2.tape.impure.length) ?_
          fun y => ⟨?_, ?_⟩
        · exact hb.tape
        · rfl
        · rw [setPhase_source]
        · exact setPhase_phase _
    | diverged i state =>
        rw [hres] at hrest
        unfold Game.incident Game.beginSegment at hrest ⊢
        dsimp only at hrest ⊢
        rw [bind_bind] at hrest ⊢
        obtain ⟨t, u, y, rfl, hy, hrest⟩ := gives_bind.mp hrest
        obtain ⟨rfl, rfl⟩ := gives_done.mp hrest
        rw [save_tape, setPhase_tape] at hT
        refine (chaosStart_once _ _ _).plays hy hT hsource hlater ?_ (i := x.2.tape.impure.length) ?_
          fun y => ⟨?_, ?_⟩
        · exact hb.tape
        · rfl
        · dsimp only
          rw [save_source, setPhase_source]
        · dsimp only
          rw [save_phase, setPhase_phase]
          rfl

theorem restoreSave_impure (b : SaveBody) (g : Game) :
    (Game.restoreSave A levels b g).Always fun g' => g'.tape.impure = g.tape.impure := by
  unfold Game.restoreSave Game.restartFromHistory
  refine (drawing_impure_kept (chaosStart_once _ _ _).asks _).bind fun x hx => always_done.mpr ?_
  rw [startReplay_tape]
  exact hx

/-- **A replay that has started is advanced somewhere ahead**, however often the tab is closed. -/
theorem Ahead.advances {reason : Str} (hover : f.phase = .over_ reason) {n : ℕ}
    (h : Ahead A levels f n g) (hf : Fresh A levels g) : ∃ k, Advances A levels f.tape g k := by
  obtain ⟨hl, hpath⟩ := h
  induction hpath with
  | here =>
      have := hf.phase
      rw [hover] at this
      cases this
  | @step n g g' hb hpath ih =>
      have hl' := (hb.live hl).1
      have hT := (path_live hpath.path hl').2
      cases hb with
      | quiet _ htape hrun hphase =>
          have hphase' : g'.phase = .replaying := by
            rcases hphase with h | ⟨h, _⟩ | ⟨h, _⟩
            · exact h.trans hf.phase
            · rw [hf.phase] at h
              cases h
            · rw [hf.phase] at h
              cases h
          obtain ⟨k, hk⟩ := ih ⟨hphase', by rw [hrun]; exact hf.replayer, by rw [hrun]; exact hf.speed,
            by rw [hrun]; exact hf.rewind⟩ hl'
          obtain ⟨hfresh, hsource, hstart, hhistory, hcrash, himpure, hchaos, hahead⟩ := hk
          rw [hrun] at hstart hhistory hcrash
          rw [htape] at himpure hchaos
          exact ⟨k, hfresh, hsource, hstart, hhistory, hcrash, himpure, hchaos, hahead⟩
      | move hm =>
          refine ⟨g, hf, hl.source, rfl, rfl, rfl, rfl, le_rfl, ?_⟩
          cases hm with
          | skip hp _ _ _ _ =>
              rw [hf.phase] at hp
              cases hp
          | confirm hp _ =>
              rw [hf.phase] at hp
              rcases hp with ⟨level, hp⟩ | hp <;> cases hp
          | @body today n tr _ hg =>
              unfold Game.frameBody at hg
              rw [hf.phase] at hg
              exact ⟨tr, g', hg, hT⟩
          | tick hp _ =>
              rw [hf.phase] at hp
              cases hp
      | @jump s x tr hs hx hg =>
          -- The save was made in the replay, so it starts the same replay again.
          obtain ⟨hstart, hhistory, hcrash⟩ := hs.replaying hf.phase
          obtain ⟨hfresh, hstart', hhistory', hcrash'⟩ := (hs.resumed hl hx hg).fresh
          obtain ⟨k, hk⟩ := ih hfresh hl'
          refine ⟨k, hk.fresh, hk.source, ?_, ?_, ?_, ?_, ?_, hk.ahead⟩
          · exact hk.start.trans (hstart'.trans hstart)
          · exact hk.history.trans (hhistory'.trans hhistory)
          · exact hk.crashTick.trans (hcrash'.trans hcrash)
          · refine hk.impure.trans ((restoreSave_impure _ _ _ g' hg).trans ?_)
            rw [← hs.tape]
          · refine le_trans ?_ hk.chaos
            have hstill := (steady_still.restoreSave A levels _ _ _ g' hg).before
            rw [← hs.tape]
            exact hstill.chaos.length_le

/-! ## 6. Frames -/

/-- A step that plays, of a game that changes from frame to frame. -/
theorem Move.played {g' : Game} (h : Move A levels g g') (hphase : g.phase.moves = true) :
    (∃ today n tr, (Game.frameBody A levels today n g).Gives tr g') ∨
      ∃ n, g.phase = .montage n ∧ Still g g' ∧ g'.tape = g.tape ∧
        g'.run = { g.run with montage := none } ∧ g'.phase = .tip g.run.start.level := by
  cases h with
  | skip hp hstill htape hrun hp' => exact .inr ⟨_, hp, hstill, htape, hrun, hp'⟩
  | confirm hp _ =>
      rcases hp with ⟨level, hp⟩ | hp
      · rw [hp] at hphase
        cases hphase
      · rw [hp] at hphase
        cases hphase
  | body _ hg => exact .inl ⟨_, _, _, hg⟩
  | tick hp _ =>
      rw [hp] at hphase
      cases hphase

/-- The playback comes to the phase of live play. -/
theorem Tied.entered {T : Tape} (h : Tied T g p) {phase : Phase} (hg : g.phase = phase)
    (hs : Shared phase g.run p.run) : Beside T g (p.setPhase phase) := by
  obtain ⟨pending, hp⟩ := setPhase_spec p phase
  rw [hp]
  refine ⟨⟨h.toBound.change, h.run⟩, .inl ⟨hg.symm, ?_⟩⟩
  rw [hg]
  exact hs

/-- The montages of a game come to their ends. -/
def Paced (p : Game) : Prop :=
  ∀ n, p.phase = .montage n → ∀ m, p.run.montage = some m → 0 < m.ticksPerFrame

/-- A montage that live play has skipped goes on. -/
theorem Beside.montage {T : Tape} (hb : Beside T g p) {n : ℕ} (hp : p.phase = .montage n)
    (hg : g.phase = .tip g.run.start.level) (today : Str) (k : ℕ) :
    ∃ p', Game.frameBody A levels today k p = .done p' ∧ Beside T g p' ∧
      (Paced p → p'.lag < p.lag) := by
  obtain ⟨q, other, rfl⟩ := hb.toTied.eq
  have hlag : ({ q with run := g.run.like other } : Game).lag =
      1 + other.montage.elim 0 Montage.left := by
    unfold Game.lag
    rw [hp]
    rfl
  unfold Game.frameBody
  rw [hlag, hp]
  dsimp only [Run.like]
  split
  · refine ⟨_, rfl, Tied.entered ⟨hb.toBound.change, { other with montage := none }, rfl⟩ hg trivial,
      fun _ => ?_⟩
    unfold Game.lag
    rw [setPhase_phase]
    exact Nat.lt_of_lt_of_le Nat.zero_lt_one (Nat.le_add_right 1 _)
  · rename_i hmore
    refine ⟨_, rfl, ⟨⟨hb.toBound.change, { other with
      montage := other.montage.map (Montage.advance A levels) }, rfl⟩, .inr (.inr ⟨n, rfl, hg⟩)⟩,
      fun hpaced => ?_⟩
    unfold Game.lag
    dsimp only
    cases hm : other.montage with
    | none =>
        rw [hm] at hmore
        exact absurd rfl hmore
    | some m =>
        rw [hm] at hmore
        have hopen : (m.advance A levels).isDone = false := by simpa using hmore
        have hdone : m.isDone = false := by
          by_contra h
          have hsame : m.advance A levels = m := by
            unfold Montage.advance
            rw [if_pos (by simpa using h)]
          rw [hsame] at hopen
          exact h hopen
        have hless := (Montage.advance_left (hpaced n rfl m hm) hdone).resolve_left
          (by rw [hopen]; decide)
        exact Nat.add_lt_add_left hless 1

/-- What the playback is bound to stays while it takes no inputs. -/
theorem Bound.kept {T : Tape} {p' : Game} (hb : Bound T g p) (hs : Still p p') (hk : Kept p p') :
    Bound T g (p'.seek g.tape) :=
  ⟨hs.playback.trans hb.playback, (hk.watched hb.playback ⟨_, _, _, hb.source⟩).1.trans hb.tape, rfl,
    hs.inputs.trans hb.inputs, hs.restarts.trans hb.restarts, hs.liveTick.trans hb.liveTick⟩

/-- **A frame, between the cards and the end.** -/
theorem frameBody_track {reason : Str} (hover : f.phase = .over_ reason) (today : Str) (k : ℕ)
    {x : ℕ × ℕ} (h : Ready A levels f x p) :
    ∃ p' y, Game.frameBody A levels today k p = .done p' ∧ Track A levels f y p' ∧ y.1 ≤ x.1 ∧
      (Paced p → (y = x ∨ Nearer y x) ∧ (0 < k → p.phase.plays = true → Nearer y x)) := by
  obtain ⟨g, ha, hb, hlag, hready⟩ := h
  -- A step of live play is done.
  have hstep : ∀ {p' g' : Game} {m : ℕ}, Game.frameBody A levels today k p = .done p' →
      Ahead A levels f m g' → Beside f.tape g' p' → m < x.1 →
      ∃ p' y, Game.frameBody A levels today k p = .done p' ∧ Track A levels f y p' ∧ y.1 ≤ x.1 ∧
        (Paced p → (y = x ∨ Nearer y x) ∧ (0 < k → p.phase.plays = true → Nearer y x)) := by
    intro p' g' m hp' ha' hb' hm
    have hnearer : Nearer (m, p'.lag + 1) x := nearer_of_fewer hm
    exact ⟨p', _, hp', .beside ha' hb', hm.le, fun _ => ⟨.inr hnearer, fun _ _ => hnearer⟩⟩
  by_cases hmoves : p.phase.moves = true
  · have hactive : p.phase ≠ .paused := by
      intro hp
      rw [hp] at hmoves
      cases hmoves
    have hgo : p.phase ≠ .over_ reason := by
      intro hp
      rw [hp] at hmoves
      cases hmoves
    by_cases hdue : f.tape.dueAt g.tape.restarts.length g.liveTick = none
    · obtain ⟨g₁, g', m, hmn, hl, hb₁, hm, ha'⟩ := step_ahead hover ha (.inl hdue) hb hactive hgo
      rcases hb₁.phase with ⟨hphase, _⟩ | ⟨hp, _⟩ | ⟨j, hp, hg⟩
      · rcases hm.played (hphase ▸ hmoves) with ⟨today', n', tr, hg⟩ | ⟨j, hg, hstill, htape, hrun, hg'⟩
        · have hphase₁ : g₁.phase ≠ .playing := by
            intro h
            rw [hphase, h] at hmoves
            cases hmoves
          obtain ⟨p', hp', hmirror⟩ := frameBody_echo (hb₁.mirror hphase) hl.source hphase₁ _ today _ k tr g'
            hg ha'.before
          exact hstep hp' ha' hmirror.beside hmn
        · -- Live play skips the montage, and the playback goes on with it.
          have hskipped : Beside f.tape g' p := by
            obtain ⟨other, ho⟩ := hb₁.run
            refine ⟨⟨⟨hb₁.playback, hb₁.tape, ?_, ?_, ?_, ?_⟩, other, ?_⟩, .inr (.inr ⟨j, ?_, ?_⟩)⟩
            · rw [htape]
              exact hb₁.source
            · rw [htape]
              exact hb₁.inputs
            · rw [htape]
              exact hb₁.restarts
            · rw [hstill.liveTick]
              exact hb₁.liveTick
            · rw [ho, hrun]
              rfl
            · exact hphase.trans hg
            · rw [hg', hrun]
          have htip : g'.phase = .tip g'.run.start.level := by rw [hg', hrun]
          obtain ⟨p', hp', hbeside, _⟩ := hskipped.montage (hphase.trans hg) htip today k
          exact hstep hp' ha' hbeside hmn
      · rw [hp] at hmoves
        cases hmoves
      · obtain ⟨p', hp', hbeside, hless⟩ := hb₁.montage hp hg today k
        have hnearer : Paced p → Nearer (m + 1, p'.lag + 1) x := fun hpaced =>
          nearer_of_less hmn (Nat.lt_of_le_of_lt (hless hpaced) hlag)
        exact ⟨p', _, hp', .beside ⟨hl, .step (.move hm) ha'.path⟩ hbeside, hmn, fun hpaced =>
          ⟨.inr (hnearer hpaced), fun _ _ => hnearer hpaced⟩⟩
    · have hf : Fresh A levels g := by
        rcases hready with h | h | h
        · exact absurd h hdue
        · exact h
        · unfold Phase.plays at h
          rw [hmoves] at h
          cases h
      have hp : p.phase = .replaying := by
        rcases hb.phase with ⟨h, _⟩ | ⟨_, h⟩ | ⟨j, _, h⟩
        · exact h.trans hf.phase
        · rw [hf.phase] at h
          cases h
        · rw [hf.phase] at h
          cases h
      obtain ⟨j, hj⟩ := ha.advances hover hf
      obtain ⟨p', hp', hsource, hphase⟩ := hj.advanceReplay hb hf
      have hbody : Game.frameBody A levels today k p = .done p' := by
        unfold Game.frameBody
        rw [hp]
        exact hp'
      have hgives : (Game.frameBody A levels today k p).Gives [] p' := by
        rw [hbody]
        exact .done p'
      have hnearer : Nearer (x.1, 0) x := nearer_of_less le_rfl (Nat.lt_of_le_of_lt (Nat.zero_le _) hlag)
      refine ⟨p', (x.1, 0), hbody, ⟨g, ha, .inr ⟨?_, hsource, hphase, Option.isSome_iff_ne_none.mpr hdue⟩⟩,
        le_rfl, fun _ => ⟨.inr hnearer, fun _ _ => hnearer⟩⟩
      exact hb.toBound.kept (frameBody_still hmoves today k [] p' hgives)
        (driven_kept.frameBody A levels today k p [] p' hgives)
  · by_cases hplay : p.phase = .playing
    · obtain ⟨p', g', m, hp', ha', hb', hmore⟩ := ticks_track hover today k ha hb
      have hbody : Game.frameBody A levels today k p = .done p' := by
        unfold Game.frameBody
        rw [hplay]
        exact hp'
      rcases hmore with hlt | ⟨rfl, rfl, hnone⟩
      · exact hstep hbody ha' hb' hlt
      · refine ⟨p', x, hbody, ⟨g', ha', .inl ⟨hb', hlag⟩⟩, le_rfl, fun _ => ⟨.inl rfl, fun hk _ => ?_⟩⟩
        refine absurd ?_ (hnone hk hplay)
        rcases hready with h | h | h
        · exact h
        · rcases hb.phase with ⟨h', _⟩ | ⟨_, h'⟩ | ⟨j, h', _⟩
          · rw [hplay, h.phase] at h'
            cases h'
          · rw [h.phase] at h'
            cases h'
          · rw [hplay] at h'
            cases h'
        · rw [hplay] at h
          cases h
    · have hrest : p.phase.plays = false := by
        unfold Phase.plays
        rw [Bool.eq_false_iff.mpr hmoves, decide_eq_false hplay]
        rfl
      refine ⟨p, x, ?_, ⟨g, ha, .inl ⟨hb, hlag⟩⟩, le_rfl, fun _ => ⟨.inl rfl, fun _ h => ?_⟩⟩
      · unfold Game.frameBody
        generalize p.phase = phase at hmoves hplay
        cases phase <;> first | rfl | exact absurd rfl hmoves | exact absurd rfl hplay
      · rw [hrest] at h
        cases h

theorem Track.playback {x : ℕ × ℕ} (h : Track A levels f x p) : p.playback = true := by
  obtain ⟨g, _, ⟨hb, _⟩ | hw⟩ := h
  · exact hb.playback
  · exact hw.bound.playback

theorem Track.endFrame {x : ℕ × ℕ} (h : Track A levels f x p) (today : Str) : p.endFrame today = p := by
  obtain ⟨i, c, hsource⟩ := h.source
  unfold Game.endFrame Game.exhausted
  rw [hsource, Bool.and_false]
  split <;> rfl

/-- A playback with nothing to confirm plays, unless it is paused or over. -/
theorem Beside.plays {reason : Str} (hover : f.phase = .over_ reason) {n : ℕ}
    (ha : Ahead A levels f n g) (hb : Beside f.tape g p) (hactive : p.phase ≠ .paused)
    (hgo : ∀ reason, p.phase ≠ .over_ reason) (htip : ∀ level, p.phase ≠ .tip level)
    (hlost : p.phase ≠ .lost) : p.phase.plays = true := by
  by_contra hrest
  have hlags : p.phase.lags = false := by
    generalize p.phase = phase at hrest
    cases phase <;> first | rfl | exact absurd rfl hrest
  have hclosed : g.phase.open_ = false := by
    rw [← hb.level hlags]
    generalize p.phase = phase at hrest hactive htip
    cases phase <;> first | rfl | exact absurd rfl hrest | exact absurd rfl hactive | exact absurd rfl (htip _)
  obtain ⟨g₁, g', m, _, _, hb₁, hm, _⟩ := step_ahead hover ha (.inr hclosed) hb hactive (hgo reason)
  have hphase := hb₁.level hlags
  cases hm with
  | skip hp _ _ _ _ =>
      rw [hphase, hp] at hrest
      exact hrest rfl
  | confirm hp _ =>
      rw [← hphase] at hp
      rcases hp with ⟨level, hp⟩ | hp
      · exact htip level hp
      · exact hlost hp
  | body hp _ =>
      rw [hphase] at hrest
      unfold Phase.plays at hrest
      rw [hp] at hrest
      exact hrest rfl
  | tick hp _ =>
      rw [hphase, hp] at hrest
      exact hrest rfl

/-- **A frame** keeps the playback beside live play, and brings it nearer to the end. -/
theorem frameStep_track {reason : Str} (hover : f.phase = .over_ reason) (today : Str) (k : ℕ)
    {x : ℕ × ℕ} (h : Track A levels f x p) :
    ∃ p' y, Game.frameStep A levels today k p = .done p' ∧ Track A levels f y p' ∧
      (Paced p → (y = x ∨ Nearer y x) ∧
        (0 < k → p.phase ≠ .paused → (∀ reason, p.phase ≠ .over_ reason) → Nearer y x)) := by
  obtain ⟨p₁, y, hp₁, hready, hcard⟩ := autoplay_track hover h
  obtain ⟨p', z, hp', htrack, hle, hmore⟩ := frameBody_track hover today k hready
  refine ⟨p', z, ?_, htrack, fun hpaced => ?_⟩
  · unfold Game.frameStep
    rw [if_pos h.playback, hp₁, done_bind, hp', done_bind, htrack.endFrame]
  · rcases hcard with ⟨rfl, rfl, htip, hlost⟩ | hlt
    · refine ⟨(hmore hpaced).1, fun hk hactive hgo => (hmore hpaced).2 hk ?_⟩
      obtain ⟨g, ha, hb, _⟩ := hready
      exact hb.plays hover ha hactive hgo htip hlost
    · have hnearer : Nearer z x := nearer_of_fewer (Nat.lt_of_le_of_lt hle hlt)
      exact ⟨.inr hnearer, fun _ _ _ => hnearer⟩

end DevDashboard.Web.Replay
