/-
  File:      DevDashboard/Web/Replay/Watching.lean
  Subject:   A TAPE REPRODUCES ITS RUN (runtime/game.ts, tape.ts).

  A viewer pauses a playback, lets it go on and sets its speed; the playback stays beside live play
  (`Track.call`). It is brought nearer to the end by every frame with a tick in which it is not
  paused, since live play was a run of finitely many small steps and montages end.

  * `tape_reproduces` -- **watching the tape of a finished run** never runs out of values, and where
    it ends, it ends like the run: with its history, state and stats;
  * `playback_ends` -- **and it ends**, however it was watched before.
-/
import DevDashboard.Web.Replay.Persistence
import DevDashboard.Web.Replay.Playback

namespace DevDashboard.Web.Replay

open Lib Asking

variable {A : Arith} {levels : LevelTable} {g p f : Game} {x : ℕ × ℕ}

/-! ## 1. What a viewer does -/

/-- The playback, were it not paused. -/
def Game.unpaused (p : Game) : Game := if p.phase = .paused then { p with phase := .playing } else p

/-- What has to do with the controls alone may change. -/
theorem Track.change (h : Track A levels f x p) (speed : ℕ) (pending : List PlayerInput)
    (slideHeld : Bool) : Track A levels f x { p with speed, pending, slideHeld } := by
  obtain ⟨g, ha, ⟨hb, hlag⟩ | hw⟩ := h
  · refine ⟨g, ha, .inl ⟨⟨⟨?_, hb.run⟩, hb.phase⟩, hlag⟩⟩
    exact ⟨hb.playback, hb.tape, hb.source, hb.inputs, hb.restarts, hb.liveTick⟩
  · have hb := hw.bound
    refine ⟨g, ha, .inr ⟨?_, hw.source, hw.phase, hw.due⟩⟩
    exact ⟨hb.playback, hb.tape, rfl, hb.inputs, hb.restarts, hb.liveTick⟩

theorem Track.unpaused (h : Track A levels f x p) : Track A levels f x p.unpaused := by
  unfold Game.unpaused
  split
  · rename_i hp
    obtain ⟨g, ha, ⟨hb, hlag⟩ | hw⟩ := h
    · have hg : g.phase = .paused := (hb.level (by rw [hp]; rfl)).symm.trans hp
      have hbeside : Beside f.tape g { p with phase := .playing } :=
        ⟨⟨hb.toBound.change, hb.run⟩, .inr (.inl ⟨rfl, hg⟩)⟩
      exact ⟨g, ha, .inl ⟨hbeside, Nat.lt_of_le_of_lt (Nat.zero_le _) hlag⟩⟩
    · rcases hw.phase with h | h <;> rw [hp] at h <;> cases h
  · exact h

/-- **A frame of a playback that may be paused.** -/
theorem frameStep_watched {reason : Str} (hover : f.phase = .over_ reason) (today : Str) (n : ℕ)
    (h : Track A levels f x p.unpaused) :
    ∃ p' y, Game.frameStep A levels today n p = .done p' ∧ Track A levels f y p'.unpaused := by
  by_cases hp : p.phase = .paused
  · have heq : p.unpaused = { p with phase := .playing } := if_pos hp
    rw [heq] at h
    have hplay : p.playback = true := h.playback
    obtain ⟨i, c, hsource⟩ : ∃ i c, p.source = .player i c false := h.source
    obtain ⟨g, ha, hb⟩ := id h
    have hbound : Bound f.tape g (p.seek g.tape) := (Waits.or_bound (hb.imp_left And.left)).change
    have hrestart : p.restartDue = f.tape.dueAt g.tape.restarts.length g.liveTick :=
      hbound.restartDue
    have hcard : Game.confirm A levels p = .done p := by
      unfold Game.confirm
      rw [hp]
    unfold Game.frameStep Game.autoplay
    rw [if_pos hplay, hcard, done_bind, hrestart, hsource, hp]
    cases hdue : f.tape.dueAt g.tape.restarts.length g.liveTick with
    | none =>
        refine ⟨p, x, ?_, by rw [heq]; exact h⟩
        dsimp only
        unfold Game.frameBody Game.endFrame Game.exhausted
        rw [done_bind, hp]
        dsimp only
        rw [done_bind, hp, hsource]
        dsimp only
        rw [Bool.and_false]
        rfl
    | some r =>
        obtain ⟨p₁, y, hp₁, hready, _⟩ := restart_ready ha hbound hdue
        obtain ⟨p', z, hp', htrack, _⟩ := frameBody_track hover today n hready
        refine ⟨p', z, ?_, htrack.unpaused⟩
        rw [hp] at hp₁
        dsimp only
        rw [hp₁, done_bind, hp', done_bind, htrack.endFrame]
  · have heq : p.unpaused = p := if_neg hp
    rw [heq] at h
    obtain ⟨p', y, hp', htrack, _⟩ := frameStep_track hover today n h
    exact ⟨p', y, hp', htrack.unpaused⟩

/-- The viewer goes on watching. -/
def Watches (p : Game) : Action → Prop
  | .command _ .cancel => p.phase = .paused
  | .command _ .confirm => ∀ reason, p.phase ≠ .over_ reason
  | .watch _ | .reopen _ => False
  | _ => True

theorem save_watching (hp : p.playback = true) : p.save levels = p := by
  unfold Game.save
  rw [if_pos hp]

/-- The playback is paused. -/
theorem Track.pause (h : Track A levels f x p.unpaused) (hp : p.phase = .playing) :
    Track A levels f x ((p.setPhase .paused).save levels).unpaused := by
  have heq : p.unpaused = p := if_neg (by rw [hp]; nofun)
  rw [heq] at h
  have hset : p.setPhase .paused = { p with phase := .paused } := rfl
  have hplay : ({ p with phase := .paused } : Game).playback = true := h.playback
  rw [hset, save_watching hplay]
  have hback : ({ p with phase := .paused } : Game).unpaused = p := by
    rw [Game.unpaused, if_pos rfl, ← hp]
  rw [hback]
  exact h

/-- It goes on. -/
theorem Track.goOn (h : Track A levels f x p.unpaused) (hp : p.phase = .paused) :
    Track A levels f x (p.setPhase .playing).unpaused := by
  have heq : p.unpaused = { p with phase := .playing } := if_pos hp
  rw [heq] at h
  obtain ⟨pending, hset⟩ := setPhase_spec p .playing
  rw [hset, Game.unpaused, if_neg nofun]
  exact h.change p.speed pending p.slideHeld

theorem Track.watching (h : Track A levels f x p.unpaused) : p.playback = true := by
  have := h.playback
  unfold Game.unpaused at this
  split at this <;> exact this

theorem Track.controls (h : Track A levels f x p.unpaused) (speed : ℕ) (slideHeld : Bool) :
    Track A levels f x ({ p with speed, slideHeld } : Game).unpaused := by
  have heq : ({ p with speed, slideHeld } : Game).unpaused = { p.unpaused with speed, slideHeld } := by
    unfold Game.unpaused
    dsimp only
    split <;> rfl
  rw [heq]
  exact h.change speed p.unpaused.pending slideHeld

/-- A command of a viewer who goes on watching. -/
theorem command_watched (h : Track A levels f x p.unpaused) (today : Day) {c : Command}
    (hc : Watches p (.command today c)) :
    ∃ p', Game.command A levels today.val c p = .done p' ∧ Track A levels f x p'.unpaused := by
  have hheld : Track A levels f x (p.holdSlide c).unpaused ∧ (p.holdSlide c).phase = p.phase := by
    unfold Game.holdSlide
    split
    · exact ⟨h.controls p.speed true, rfl⟩
    · exact ⟨h.controls p.speed false, rfl⟩
    · exact ⟨h, rfl⟩
  obtain ⟨hheld, hphase⟩ := hheld
  unfold Game.command
  generalize p.holdSlide c = q at hheld hphase
  dsimp only
  rw [if_pos hheld.watching]
  have hstay : ∃ p', (Asking.done q : Asking Draw ℚ Game) = .done p' ∧ Track A levels f x p'.unpaused :=
    ⟨q, rfl, hheld⟩
  cases c with
  | input kind => split <;> first | exact hstay | contradiction
  | confirm =>
      by_cases hp : q.phase = .paused
      · rw [hp]
        dsimp only [Game.act]
        rw [hp]
        exact ⟨_, rfl, hheld.goOn hp⟩
      · have hc : ∀ reason, q.phase ≠ .over_ reason := by
          rw [hphase]
          exact hc
        generalize hq : q.phase = phase at hp hc
        cases phase <;> first | exact hstay | exact absurd rfl hp | exact absurd rfl (hc _)
  | cancel =>
      have hp : q.phase = .paused := hphase.trans hc
      rw [hp]
      dsimp only [Game.act]
      rw [hp]
      exact ⟨_, rfl, hheld.goOn hp⟩
  | pause =>
      have hact : ∃ p', Game.act A levels today.val .pause q = .done p' ∧
          Track A levels f x p'.unpaused := by
        unfold Game.act
        generalize hq : q.phase = phase
        cases phase <;> first
          | exact hstay
          | exact ⟨_, rfl, hheld.pause hq⟩
          | exact ⟨_, rfl, hheld.goOn hq⟩
      generalize q.phase = phase
      cases phase <;> exact hact

/-- **What a viewer does** keeps the playback beside live play. -/
theorem Track.call {reason : Str} (hover : f.phase = .over_ reason) {p' : Game}
    (h : Track A levels f x p.unpaused) {a : Action} (hC : Watches p a) (ha : Called A levels p a p') :
    ∃ y, Track A levels f y p'.unpaused := by
  obtain ⟨tr, ha⟩ := ha
  cases a with
  | command today c =>
      obtain ⟨q, hq, htrack⟩ := command_watched h today hC
      unfold Action.call at ha
      dsimp only at ha
      rw [hq] at ha
      obtain ⟨rfl, rfl⟩ := gives_done.mp ha
      exact ⟨x, htrack⟩
  | frame today n =>
      have hsteps : ∀ k, ∃ q y, Game.frameSteps A levels today.val n k p = .done q ∧
          Track A levels f y q.unpaused := by
        intro k
        clear ha hC
        induction k generalizing p x with
        | zero => exact ⟨p, x, rfl, h⟩
        | succ k ih =>
            obtain ⟨q, y, hq, htrack⟩ := frameStep_watched hover today.val n h
            rw [Game.frameSteps, hq, done_bind]
            exact ih htrack
      unfold Action.call Game.frame at ha
      obtain ⟨q, y, hq, htrack⟩ := hsteps (if p.playback then p.speed else 1)
      dsimp only at ha
      rw [hq] at ha
      obtain ⟨rfl, rfl⟩ := gives_done.mp ha
      exact ⟨y, htrack⟩
  | setPlaybackSpeed speed =>
      obtain ⟨rfl, rfl⟩ := gives_done.mp ha
      unfold Game.setPlaybackSpeed
      split
      · exact ⟨x, h.controls speed p.slideHeld⟩
      · exact ⟨x, h⟩
  | suspend =>
      obtain ⟨rfl, rfl⟩ := gives_done.mp ha
      unfold Game.suspend
      split
      · exact ⟨x, h.pause ‹_›⟩
      · rw [save_watching h.watching]
        exact ⟨x, h⟩
  | watch tape => exact hC.elim
  | reopen today => exact hC.elim

/-! ## 2. Watching -/

/-- **Watching begins** where the run began. -/
theorem Born.watched {b g₀ w : Game} (hborn : Born A levels b) {T : Tape} (hT : b.tape.Before T)
    (htape : isTape T.toJson = true) (hw : Called A levels g₀ (.watch T) w) : Mirror T b w := by
  obtain ⟨x, today, tr, hb⟩ := hborn
  obtain ⟨tr', hw⟩ := hw
  unfold Game.newRun Game.startRun Game.leavePlayback at hb
  unfold Action.call Game.watch Game.startRun at hw
  dsimp only at hb hw
  rw [if_pos htape] at hw
  have hdate : T.date = today := by
    obtain ⟨impure, chaos, ht⟩ := (steady_still.beginSegment A levels _ _ _ tr b hb).tape
    have := hT.date
    rw [ht] at this
    exact this
  subst hdate
  have hecho := fun hbound hs hk => @beginSegment_echo A levels T _
    { g₀ with
      playback := true
      run := { g₀.run with
        runDate := T.date, stats := emptyStats, divergedAt := none, segments := [] }
      tape := T, source := .player 0 0 false, liveTick := 0, inputCursor := 0, restartCursor := 0 }
    hbound hs hk _ _ tr b hb hT
  obtain ⟨p', hp', hmirror⟩ := hecho ⟨rfl, rfl, rfl, rfl, rfl, rfl⟩ rfl ⟨rfl, rfl, rfl, rfl⟩
  dsimp only at hp'
  rw [hp'] at hw
  obtain ⟨rfl, rfl⟩ := gives_done.mp hw
  exact hmirror

/-- Two games that ended alike. -/
structure EndsLike (g p : Game) : Prop where
  phase : p.phase = g.phase
  runDate : p.run.runDate = g.run.runDate
  start : p.run.start = g.run.start
  history : p.run.history = g.run.history
  state : p.run.state = g.run.state
  stats : p.run.stats = g.run.stats
  divergedAt : p.run.divergedAt = g.run.divergedAt

theorem Track.over (h : Track A levels f x p) {reason : Str} (hphase : p.phase = .over_ reason) :
    EndsLike f p := by
  obtain ⟨g, ha, ⟨hb, _⟩ | hw⟩ := h
  · have hg := (hb.level (by rw [hphase]; rfl)).symm.trans hphase
    obtain ⟨hlast, hrun, _⟩ := over_ahead ha.path.path hg
    obtain ⟨other, ho⟩ := hb.run
    rw [← hrun] at ho
    refine ⟨hphase.trans hlast.symm, ?_, ?_, ?_, ?_, ?_, ?_⟩ <;> rw [ho] <;> rfl
  · rcases hw.phase with h | h <;> rw [hphase] at h <;> cases h

/-- **Watching a finished run**, the playback is beside live play. -/
theorem track_of_watch {today : Day} {best : ℕ} {daily : Option (Str × ℕ)} {l l' : List (Game × Action)}
    (h : Runs A levels today best daily l g) (hp : g.playback = false) {reason : Str}
    (hover : g.phase = .over_ reason) {g₀ w w' : Game} (hw : Called A levels g₀ (.watch g.tape) w)
    (hl' : Trace (Called A levels) w l' w') (hC : ∀ a ∈ l', Watches a.1 a.2) :
    ∃ x, Track A levels g x w'.unpaused := by
  have hidle : g.phase.idle = false := by rw [hover]; rfl
  obtain ⟨b, hborn, hpath⟩ := (journey_of_run h).lineage hp hidle
  obtain ⟨n, hsteps⟩ := exists_steps hpath
  have hahead : Ahead A levels g n b := ⟨hborn.live, hsteps⟩
  have hmirror := hborn.watched hahead.before (tapes_watch h hp hidle) hw
  refine hl'.inv_of (I := fun w => ∃ x, Track A levels g x w.unpaused)
    ⟨_, (Track.beside hahead hmirror.beside).unpaused⟩ (fun w a w' hx hC ha => ?_) hC
  obtain ⟨x, hx⟩ := hx
  exact hx.call hover hC ha

/-- **A tape reproduces its run**: whoever watches the tape of a run that is over, however the
    playback is paused and at whatever speed, sees it draw its values from the tape to the end,
    and where it is over, it ended like the run. -/
theorem tape_reproduces {today : Day} {best : ℕ} {daily : Option (Str × ℕ)} {l l' : List (Game × Action)}
    (h : Runs A levels today best daily l g) (hp : g.playback = false) {reason : Str}
    (hover : g.phase = .over_ reason) {g₀ w w' : Game} (hw : Called A levels g₀ (.watch g.tape) w)
    (hl' : Trace (Called A levels) w l' w') (hC : ∀ a ∈ l', Watches a.1 a.2) :
    w'.playback = true ∧ w'.exhausted = false ∧
      ∀ reason', w'.phase = .over_ reason' → EndsLike g w' := by
  obtain ⟨x, hx⟩ := track_of_watch h hp hover hw hl' hC
  obtain ⟨i, c, hsource⟩ := hx.source
  refine ⟨hx.watching, ?_, fun reason' hphase => ?_⟩
  · have hsame : w'.unpaused.source = w'.source := by
      unfold Game.unpaused
      split <;> rfl
    unfold Game.exhausted
    rw [← hsame, hsource]
  · have heq : w'.unpaused = w' := if_neg (by rw [hphase]; nofun)
    rw [heq] at hx
    exact hx.over hphase

/-- Levels of orbs and racks in which the first hit ends the run. -/
def orbsAndRacks : LevelTable := fun level =>
  { orbsFast none level with
    firstCrashTicks := none, scriptedCrashAt := none, chaosMeanTicks := some 1200
    weights := weigh [(.orb, 4), (.low, 3)], retries := 0 }

/-- A run that takes an orb, is closed after five ticks and resumed, takes another orb and is played
    to its end. -/
def resumedCalls : List Action :=
  orbCalls 5 ++ [.suspend, .reopen secondDay, .command secondDay .confirm, .frame secondDay 1,
    .frame secondDay 1, .frame secondDay 200]

def resumedRun : Game :=
  resumedCalls.foldl (Game.told (.exact 4) orbsAndRacks (1 / 3))
    (.create (.exact 4) orbsAndRacks secondDay.val (.new 0 none))

/-- Its tape, watched on another day for some frames. -/
def watchedRun (frames : ℕ) : Game :=
  (List.replicate frames (.frame newYear 40)).foldl (Game.told (.exact 4) orbsAndRacks 0)
    (Game.told (.exact 4) orbsAndRacks 0 (.create (.exact 4) orbsAndRacks newYear.val (.new 0 none))
      (.watch resumedRun.tape))

theorem resumedRun_over : (∃ l, Runs (.exact 4) orbsAndRacks secondDay 0 none l resumedRun) ∧
    resumedRun.playback = false ∧ resumedRun.phase = .over_ "hit an obstacle".toList :=
  ⟨⟨_, trace_told _ _ _⟩, by decide +kernel, by decide +kernel⟩

/-- Frames go on watching. -/
theorem watches_of_replicate (g : Game) (n : ℕ) :
    ∀ a ∈ visited (Game.told (.exact 4) orbsAndRacks 0) g
        (List.replicate n (Action.frame newYear 40)), Watches a.1 a.2 := by
  intro a ha
  rw [List.eq_of_mem_replicate (mem_of_visited ha)]
  trivial

theorem tape_reproduces_resumed :
    (resumedRun.tape.impure.length, resumedRun.tape.chaos.length) = (2, 3) ∧
      (watchedRun 7).exhausted = false ∧ EndsLike resumedRun (watchedRun 7) := by
  obtain ⟨⟨l, hl⟩, hp, hover⟩ := resumedRun_over
  obtain ⟨_, hvalues, hends⟩ := tape_reproduces hl hp hover (called_told 0 _ _) (trace_told 0 _ _)
    (watches_of_replicate _ 7)
  have hphase : (watchedRun 7).phase = .over_ "hit an obstacle".toList := by decide +kernel
  exact ⟨by decide +kernel, hvalues, hends _ hphase⟩

/-! ## 3. The end -/

/-- Frames do not pause a game. -/
theorem driven_unpaused : Driven fun g g' => g'.phase = .paused → g.phase = .paused where
  refl := fun g h => h
  trans := fun h h' hphase => h (h' hphase)
  draw := fun q g => (draw_drawn q).mono fun x hx hphase => by
    obtain ⟨impure, chaos, source, hg⟩ := hx.frame
    rw [hg] at hphase
    exact hphase
  change := by
    intro g run phase pending dailyBest h hphase
    rcases h with h | h
    · exact h.symm.trans hphase
    · have hpaused : phase = .paused := hphase
      rw [hpaused] at h
      cases h
  file := fun g best dailyBest store _ h => h
  inputs := fun g h => by
    obtain ⟨tape, liveTick, inputCursor, hg⟩ := takeInputs_frame g
    rw [hg] at h
    exact h
  restart := fun g k i c e h => h

/-- Frames leave the speed alone. -/
theorem driven_speed : Driven fun g g' => g'.speed = g.speed where
  refl := fun g => rfl
  trans := fun h h' => h'.trans h
  draw := fun q g => (draw_drawn q).mono fun x hx => by
    obtain ⟨impure, chaos, source, hg⟩ := hx.frame
    rw [hg]
  change := fun g run phase pending dailyBest h => rfl
  file := fun g best dailyBest store _ => rfl
  inputs := fun g => by
    obtain ⟨tape, liveTick, inputCursor, hg⟩ := takeInputs_frame g
    rw [hg]
  restart := fun g k i c e => rfl

/-- What ends a playback: it plays, at some speed, as the invariant has it. -/
structure Going (A : Arith) (levels : LevelTable) (p : Game) : Prop where
  good : Good A levels False p
  active : p.phase ≠ .paused
  speed : 0 < p.speed

theorem Going.paced (h : Going A levels p) : Paced p := by
  intro n hphase m hm
  have hr := h.good.run
  rw [hphase] at hr
  exact (hr.2 m hm).paced

theorem Going.frameStep (h : Going A levels p) (today : Str) (k : ℕ) :
    (Game.frameStep A levels today k p).Always (Going A levels) := fun tr p' h' =>
  ⟨frameStep_good today k h.good False.elim tr p' h',
    fun hphase => h.active (driven_unpaused.frameStep A levels today k p tr p' h' hphase),
    (driven_speed.frameStep A levels today k p tr p' h').symm ▸ h.speed⟩

theorem Nearer.trans {x y z : ℕ × ℕ} (h : Nearer z y) (h' : y = x ∨ Nearer y x) : Nearer z x := by
  rcases h' with rfl | h'
  · exact h
  · exact Prod.Lex.trans h h'

/-- **A frame with a tick** brings a playback nearer to its end. -/
theorem frame_nearer {reason : Str} (hover : f.phase = .over_ reason) (today : Str) {k : ℕ}
    (hk : 0 < k) (h : Track A levels f x p) (hgo : Going A levels p)
    (hrun : ∀ reason, p.phase ≠ .over_ reason) :
    ∃ p' y, Game.frame A levels today k p = .done p' ∧ Track A levels f y p' ∧ Going A levels p' ∧
      Nearer y x := by
  have hsteps : ∀ n, ∀ {x p}, Track A levels f x p → Going A levels p → ∃ p' y,
      Game.frameSteps A levels today k n p = .done p' ∧ Track A levels f y p' ∧ Going A levels p' ∧
      (y = x ∨ Nearer y x) := by
    intro n
    induction n with
    | zero => exact fun {x p} h hgo => ⟨p, x, rfl, h, hgo, .inl rfl⟩
    | succ n ih =>
        intro x p h hgo
        obtain ⟨p₁, y, hp₁, h₁, hmore⟩ := frameStep_track hover today k h
        have hgo₁ := hgo.frameStep today k [] p₁ (by rw [hp₁]; exact .done p₁)
        obtain ⟨p', z, hp', h', hgo', hz⟩ := ih h₁ hgo₁
        refine ⟨p', z, by rw [Game.frameSteps, hp₁, done_bind, hp'], h', hgo', ?_⟩
        have hy := (hmore hgo.paced).1
        rcases hz with rfl | hz
        · exact hy
        · exact .inr (hz.trans hy)
  obtain ⟨n, hn⟩ := Nat.exists_eq_add_of_lt hgo.speed
  obtain ⟨p₁, y, hp₁, h₁, hmore⟩ := frameStep_track hover today k h
  have hgo₁ := hgo.frameStep today k [] p₁ (by rw [hp₁]; exact .done p₁)
  have hy := (hmore hgo.paced).2 hk hgo.active hrun
  obtain ⟨p', z, hp', h', hgo', hz⟩ := hsteps n h₁ hgo₁
  refine ⟨p', z, ?_, h', hgo', ?_⟩
  · unfold Game.frame
    rw [if_pos h.playback, hn, Nat.zero_add, Game.frameSteps, hp₁, done_bind, hp']
  · rcases hz with rfl | hz
    · exact hy
    · exact hz.trans (.inr hy)

/-- **A playback that is left alone ends**, and since its frames ask nothing, in one way. -/
theorem Track.ends {reason : Str} (hover : f.phase = .over_ reason) (h : Track A levels f x p)
    (hgo : Going A levels p) (frames : ℕ → Day × ℕ) (hticks : ∀ i, 0 < (frames i).2) :
    ∃ (n : ℕ) (p' : Game), EndsLike f p' ∧
      (∃ l, Trace (Called A levels) p l p' ∧
        l.map Prod.snd = (List.range n).map (fun i => .frame (frames i).1 (frames i).2)) ∧
      ∀ l w, Trace (Called A levels) p l w →
        l.map Prod.snd = (List.range n).map (fun i => .frame (frames i).1 (frames i).2) → w = p' := by
  induction x using nearer_wf.induction generalizing p frames with
  | _ x ih =>
      by_cases hend : ∃ reason, p.phase = .over_ reason
      · obtain ⟨reason', hphase⟩ := hend
        refine ⟨0, p, h.over hphase, ⟨[], .start, rfl⟩, fun l w hl hnil => ?_⟩
        obtain rfl := List.map_eq_nil_iff.mp hnil
        exact hl.eq_of_nil
      · obtain ⟨p₁, y, hp₁, h₁, hgo₁, hy⟩ := frame_nearer hover (frames 0).1.val (hticks 0) h hgo
          fun reason hphase => hend ⟨reason, hphase⟩
        obtain ⟨n, p', hends, ⟨l, hl, hframes⟩, honly⟩ := ih y hy h₁ hgo₁ (fun i => frames (i + 1))
          fun i => hticks (i + 1)
        have hcall : ∀ q, Called A levels p (.frame (frames 0).1 (frames 0).2) q ↔ q = p₁ := by
          intro q
          unfold Called Action.call
          dsimp only
          rw [hp₁]
          exact ⟨fun ⟨tr, hq⟩ => (gives_done.mp hq).2, fun hq => ⟨[], gives_done.mpr ⟨rfl, hq⟩⟩⟩
        have hrange : (List.range (n + 1)).map
            (fun i => Action.frame (frames i).1 (frames i).2) = .frame (frames 0).1 (frames 0).2 ::
              (List.range n).map (fun i => .frame (frames (i + 1)).1 (frames (i + 1)).2) := by
          rw [List.range_succ_eq_map, List.map_cons, List.map_map]
          rfl
        refine ⟨n + 1, p', hends, ⟨_, hl.cons ((hcall p₁).mpr rfl), ?_⟩, fun l w hl hactions => ?_⟩
        · rw [hrange, List.map_cons, hframes]
        · rw [hrange] at hactions
          obtain ⟨a, l', rfl, ha, hl'⟩ := List.map_eq_cons_iff.mp hactions
          obtain ⟨q, hq, hrest⟩ := hl.uncons
          rw [ha] at hq
          obtain rfl := (hcall q).mp hq
          exact honly l' w hrest hl'

@[simp] theorem setPhase_speed (phase : Phase) : (g.setPhase phase).speed = g.speed := by
  obtain ⟨pending, h⟩ := setPhase_spec g phase
  rw [h]

@[simp] theorem save_speed : (g.save levels).speed = g.speed := by
  obtain ⟨store, h⟩ := save_spec levels g
  rw [h]

theorem newRun_speed (today : Str) (g : Game) :
    (Game.newRun A levels today g).Always fun g' => 0 < g'.speed := by
  intro tr g' h
  rw [driven_speed.beginSegment A levels _ _ _ tr g' h]
  exact Nat.zero_lt_one

theorem act_speed (h : 0 < g.speed) (today : Str) (c : Command) :
    (Game.act A levels today c g).Always fun g' => 0 < g'.speed := by
  have hconfirm : (Game.confirm A levels g).Always fun g' => 0 < g'.speed :=
    (driven_speed.confirm A levels g).mono fun g' hg' => by rw [hg']; exact h
  unfold Game.act
  split
  · exact newRun_speed today g
  · exact newRun_speed today g
  · split
    · intro tr g' hg'
      rw [driven_speed.restoreSave A levels _ _ tr g' hg']
      exact h
    · exact always_done.mpr h
  all_goals first
    | exact hconfirm
    | exact always_done.mpr (by simpa using h)

theorem speed_of_call {g' : Game} (h : 0 < g.speed) {a : Action} (ha : Called A levels g a g') :
    0 < g'.speed := by
  obtain ⟨tr, ha⟩ := ha
  cases a with
  | command today c =>
      have hheld : 0 < (g.holdSlide c).speed := by
        unfold Game.holdSlide
        split <;> exact h
      unfold Action.call Game.command at ha
      dsimp only at ha
      refine (?_ : Asking.Always _ fun g' : Game => 0 < g'.speed) tr g' ha
      generalize g.holdSlide c = q at hheld
      split
      · split <;> first
          | exact newRun_speed today.val q
          | exact act_speed hheld today.val _
          | exact always_done.mpr (by simp [Game.leavePlayback])
          | exact always_done.mpr hheld
      · exact act_speed hheld today.val c
  | frame today n =>
      rw [driven_speed.frame A levels today.val n g tr g' ha]
      exact h
  | setPlaybackSpeed speed =>
      obtain ⟨rfl, rfl⟩ := gives_done.mp ha
      unfold Game.setPlaybackSpeed
      split
      · rename_i hspeed
        have hpos : ∀ n ∈ playbackSpeeds, 0 < n := by decide
        exact hpos speed hspeed.2
      · exact h
  | suspend =>
      obtain ⟨rfl, rfl⟩ := gives_done.mp ha
      unfold Game.suspend
      split
      · simpa using h
      · simpa using h
  | watch tape =>
      unfold Action.call Game.watch at ha
      dsimp only at ha
      split at ha
      · rw [driven_speed.beginSegment A levels _ _ _ tr g' ha]
        exact h
      · obtain ⟨rfl, rfl⟩ := gives_done.mp ha
        exact h
  | reopen today =>
      obtain ⟨rfl, rfl⟩ := gives_done.mp ha
      exact Nat.zero_lt_one

/-- **A playback ends**, however it was watched before: with a tick in every frame it is over at
    some frame, in one state whatever is asked outside, and ended like the run. -/
theorem playback_ends {today today' : Day} {best best' : ℕ} {daily daily' : Option (Str × ℕ)}
    {l l₀ l' : List (Game × Action)} (h : Runs A levels today best daily l g)
    (hp : g.playback = false) {reason : Str} (hover : g.phase = .over_ reason) {g₀ w w' : Game}
    (h₀ : Runs A levels today' best' daily' l₀ g₀) (hw : Called A levels g₀ (.watch g.tape) w)
    (hl' : Trace (Called A levels) w l' w') (hC : ∀ a ∈ l', Watches a.1 a.2)
    (hactive : w'.phase ≠ .paused) (frames : ℕ → Day × ℕ) (hticks : ∀ i, 0 < (frames i).2) :
    ∃ (n : ℕ) (w'' : Game), EndsLike g w'' ∧
      (∃ l'', Trace (Called A levels) w' l'' w'' ∧
        l''.map Prod.snd = (List.range n).map (fun i => .frame (frames i).1 (frames i).2)) ∧
      ∀ l'' v, Trace (Called A levels) w' l'' v →
        l''.map Prod.snd = (List.range n).map (fun i => .frame (frames i).1 (frames i).2) → v = w'' := by
  obtain ⟨x, hx⟩ := track_of_watch h hp hover hw hl' hC
  have heq : w'.unpaused = w' := if_neg hactive
  rw [heq] at hx
  have hstart : Inv A levels False g₀ ∧ 0 < g₀.speed := by
    refine Trace.inv (I := fun g => Inv A levels False g ∧ 0 < g.speed)
      ⟨inv_create today' (storeOk_new best' daily'), Nat.zero_lt_one⟩ ?_ h₀
    exact fun g a g' hg ha => ⟨hg.1.step False.elim ha, speed_of_call hg.2 ha⟩
  have hend : Inv A levels False w' ∧ 0 < w'.speed := by
    refine Trace.inv (I := fun g => Inv A levels False g ∧ 0 < g.speed)
      ⟨hstart.1.step False.elim hw, speed_of_call hstart.2 hw⟩ ?_ hl'
    exact fun g a g' hg ha => ⟨hg.1.step False.elim ha, speed_of_call hg.2 ha⟩
  refine hx.ends hover ⟨?_, hactive, hend.2⟩ frames hticks
  refine hend.1.good ?_ fun _ => ⟨id, ?_⟩
  · by_contra hidle
    have := hend.1.idle (by simpa using hidle)
    rw [hx.playback] at this
    cases this
  · have htape : w'.tape = g.tape := by
      obtain ⟨k, _, ⟨hb, _⟩ | hw⟩ := hx
      · exact hb.tape
      · exact hw.bound.tape
    rw [htape]
    have hi : Inv A levels False g := inv_of_run h False.elim
    exact (hi.good (by rw [hover]; rfl) fun h => by rw [hp] at h; cases h).base.tape

theorem playback_ends_resumed : ∃ (n : ℕ) (w : Game), EndsLike resumedRun w ∧
    (∃ l, Trace (Called (.exact 4) orbsAndRacks) (watchedRun 2) l w ∧
      l.map Prod.snd = (List.range n).map (fun _ => .frame newYear 1)) ∧
    ∀ l v, Trace (Called (.exact 4) orbsAndRacks) (watchedRun 2) l v →
      l.map Prod.snd = (List.range n).map (fun _ => .frame newYear 1) → v = w := by
  obtain ⟨⟨l, hl⟩, hp, hover⟩ := resumedRun_over
  exact playback_ends hl hp hover .start (called_told 0 _ _) (trace_told 0 _ _)
    (watches_of_replicate _ 2) (by decide +kernel) (fun _ => (newYear, 1)) fun _ => Nat.one_pos

end DevDashboard.Web.Replay
