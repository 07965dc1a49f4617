/-
  File:      DevDashboard/Lib/Machine.lean
  Subject:   LABELLED STEP RELATIONS AND THEIR RUNS.

  A component whose calls interleave is a step relation `S → A → S → Prop`: `A` says who acts.
  A run is recorded with the states its steps were taken in (`Trace`), so that a statement can
  speak about every step of the run as well as about the state it ends in.

  * `Trace.inv` -- what holds at the start and is kept by every step holds where a run ends;
  * `Trace.inv_of` -- the same, for runs whose steps all meet a condition;
  * `Trace.steps_of` -- what every step does in a state with the invariant, it does in a run;
  * `Trace.stable_of_step` -- what one step of a run establishes and every step keeps holds at
    the end;
  * `Trace.reach` -- **the progress rule**: what every step brings nearer is reached;
  * `Steps` -- how many steps there are to go to a state.
-/
import Mathlib.Data.List.Induction
import Mathlib.Logic.Relation

namespace DevDashboard.Lib

variable {S A : Type}

/-- The runs of a step relation from `s₀`, each with the list of its steps (the state a step was
    taken in and its label), oldest first. -/
inductive Trace (step : S → A → S → Prop) (s₀ : S) : List (S × A) → S → Prop where
  | start : Trace step s₀ [] s₀
  | next {l : List (S × A)} {s s' : S} {a : A} (h : Trace step s₀ l s) (hs : step s a s') :
      Trace step s₀ (l ++ [(s, a)]) s'

namespace Trace

variable {step : S → A → S → Prop} {s₀ s : S} {l : List (S × A)} {I : S → Prop}

/-- **The invariant rule**: an invariant of the steps holds at the end of every run. -/
theorem inv (h0 : I s₀) (hstep : ∀ s a s', I s → step s a s' → I s') (h : Trace step s₀ l s) :
    I s := by
  induction h with
  | start => exact h0
  | next _ hs ih => exact hstep _ _ _ ih hs

/-- The invariant rule for runs whose steps all meet `C`. -/
theorem inv_of {C : S → A → Prop} (h0 : I s₀)
    (hstep : ∀ s a s', I s → C s a → step s a s' → I s') (h : Trace step s₀ l s)
    (hC : ∀ p ∈ l, C p.1 p.2) : I s := by
  induction h with
  | start => exact h0
  | next _ hs ih =>
      refine hstep _ _ _ (ih fun p hp => hC p (List.mem_append_left _ hp)) ?_ hs
      exact hC _ (List.mem_append_right _ (List.mem_singleton_self _))

/-- What every step meets that is taken in a state with the invariant, every step of the run
    meets. -/
theorem steps_of {C Q : S → A → Prop} (h0 : I s₀)
    (hstep : ∀ s a s', I s → C s a → step s a s' → I s')
    (hQ : ∀ s a s', I s → C s a → step s a s' → Q s a) (h : Trace step s₀ l s)
    (hC : ∀ p ∈ l, C p.1 p.2) : ∀ p ∈ l, Q p.1 p.2 := by
  induction h with
  | start => exact fun p hp => absurd hp List.not_mem_nil
  | next hr hs ih =>
      have hC' := fun p hp => hC p (List.mem_append_left _ hp)
      intro p hp
      rcases List.mem_append.mp hp with hm | hm
      · exact ih hC' p hm
      · rw [List.mem_singleton] at hm
        subst hm
        exact hQ _ _ _ (inv_of h0 hstep hr hC') (hC _ hp) hs

/-- **A stable fact**: `J` established by some step of the run and kept by every step (in the
    presence of the invariant `I`) holds where the run ends. -/
theorem stable_of_step {J : S → Prop} {C : S → A → Prop} (h0 : I s₀)
    (hstep : ∀ s a s', I s → step s a s' → I s')
    (hset : ∀ s a s', I s → C s a → step s a s' → J s')
    (hkeep : ∀ s a s', I s → J s → step s a s' → J s')
    (h : Trace step s₀ l s) (hC : ∃ p ∈ l, C p.1 p.2) : J s := by
  induction h with
  | start => obtain ⟨p, hp, _⟩ := hC; exact absurd hp List.not_mem_nil
  | next hr hs ih =>
      have hI := inv h0 hstep hr
      obtain ⟨p, hp, hc⟩ := hC
      rcases List.mem_append.mp hp with hp | hp
      · exact hkeep _ _ _ hI (ih ⟨p, hp, hc⟩) hs
      · rw [List.mem_singleton] at hp
        subst hp
        exact hset _ _ _ hI hc hs

/-- **The progress rule**: if a step that meets `C` reaches `G` or leaves one step less to go, a run
    of `n` such steps has been in a state with `G`. -/
theorem reach {C : S → A → Prop} {G : S → Prop} {I : ℕ → S → Prop} {n : ℕ} (h0 : I n s₀)
    (hpos : ∀ s, ¬ I 0 s)
    (hstep : ∀ k s a s', I (k + 1) s → C s a → step s a s' → G s' ∨ I k s')
    (h : Trace step s₀ l s) (hC : ∀ p ∈ l, C p.1 p.2) (hn : n ≤ l.length) :
    ∃ s', (s' = s ∨ s' ∈ l.map Prod.fst) ∧ G s' := by
  have hgo : (∃ s', (s' = s ∨ s' ∈ l.map Prod.fst) ∧ G s') ∨ ∃ k, n = k + l.length ∧ I k s := by
    clear hn
    induction h with
    | start => exact .inr ⟨n, rfl, h0⟩
    | @next l s s' a _ hs ih =>
        rcases ih fun p hp => hC p (List.mem_append_left _ hp) with ⟨x, hx, hG⟩ | ⟨k, hk, hI⟩
        · refine .inl ⟨x, .inr ?_, hG⟩
          rw [List.map_append]
          rcases hx with rfl | hx
          · exact List.mem_append_right _ (List.mem_singleton_self _)
          · exact List.mem_append_left _ hx
        · have hc := hC _ (List.mem_append_right _ (List.mem_singleton_self _))
          cases k with
          | zero => exact absurd hI (hpos s)
          | succ k =>
              rcases hstep k s a s' hI hc hs with hG | hI
              · exact .inl ⟨s', .inl rfl, hG⟩
              · refine .inr ⟨k, ?_, hI⟩
                rw [hk, List.length_append, List.length_singleton]
                omega
  rcases hgo with hG | ⟨k, hk, hI⟩
  · exact hG
  · obtain rfl : k = 0 := by omega
    exact absurd hI (hpos s)

/-- A run of steps that all meet `C`. -/
theorem of_restrict {C : S → A → Prop} (h : Trace (fun s a s' => step s a s' ∧ C s a) s₀ l s) :
    Trace step s₀ l s ∧ ∀ p ∈ l, C p.1 p.2 := by
  induction h with
  | start => exact ⟨.start, fun p hp => absurd hp List.not_mem_nil⟩
  | next _ hs ih =>
      refine ⟨ih.1.next hs.1, fun p hp => ?_⟩
      rcases List.mem_append.mp hp with hp | hp
      · exact ih.2 p hp
      · rw [List.mem_singleton.mp hp]
        exact hs.2

/-- A step before a run. -/
theorem cons {a : A} {s₁ : S} (hs : step s₀ a s₁) (h : Trace step s₁ l s) :
    Trace step s₀ ((s₀, a) :: l) s := by
  induction h with
  | start => exact Trace.start.next hs
  | next _ hs' ih => exact ih.next hs'

/-- A run without steps. -/
theorem eq_of_nil (h : Trace step s₀ [] s) : s = s₀ := by
  generalize hl : ([] : List (S × A)) = m at h
  cases h with
  | start => rfl
  | next => exact absurd hl.symm (by simp)

/-- The first step of a run, and the run behind it. -/
theorem uncons {p : S × A} (h : Trace step s₀ (p :: l) s) :
    ∃ s₁, step s₀ p.2 s₁ ∧ Trace step s₁ l s := by
  generalize hl : p :: l = m at h
  induction h generalizing l with
  | start => cases hl
  | @next m s s' a hr hs ih =>
      cases m with
      | nil =>
          obtain ⟨rfl, rfl⟩ := List.cons.inj hl
          obtain rfl := hr.eq_of_nil
          exact ⟨s', hs, .start⟩
      | cons q m =>
          obtain ⟨rfl, rfl⟩ := List.cons.inj hl
          obtain ⟨s₁, h₁, hrest⟩ := ih rfl
          exact ⟨s₁, h₁, hrest.next hs⟩

/-- A run of steps that are steps of another relation as well. -/
theorem mono {step' : S → A → S → Prop} (hstep : ∀ s a s', step s a s' → step' s a s')
    (h : Trace step s₀ l s) : Trace step' s₀ l s := by
  induction h with
  | start => exact .start
  | next _ hs ih => exact ih.next (hstep _ _ _ hs)

/-- The run of a step function over a list of labels. -/
theorem of_foldl (f : S → A → S) (s₀ : S) (as : List A) :
    ∃ l, Trace (fun s a s' => s' = f s a) s₀ l (as.foldl f s₀) ∧ l.map Prod.snd = as := by
  induction as using List.reverseRecOn with
  | nil => exact ⟨[], .start, rfl⟩
  | append_singleton as a ih =>
      obtain ⟨l, hl, hm⟩ := ih
      rw [List.foldl_append]
      exact ⟨_, hl.next rfl, by rw [List.map_append, hm]; rfl⟩

end Trace

/-- The steps of a run of a step function. -/
def visited (f : S → A → S) : S → List A → List (S × A)
  | _, [] => []
  | s, a :: as => (s, a) :: visited f (f s a) as

theorem mem_of_visited {f : S → A → S} {s : S} {as : List A} {p : S × A}
    (h : p ∈ visited f s as) : p.2 ∈ as := by
  induction as generalizing s with
  | nil => exact absurd h List.not_mem_nil
  | cons a as ih =>
      rcases List.mem_cons.mp h with rfl | h
      · exact List.mem_cons_self
      · exact List.mem_cons_of_mem _ (ih h)

theorem Trace.append_visited {f : S → A → S} {s₀ s : S} {l : List (S × A)}
    (h : Trace (fun s a s' => s' = f s a) s₀ l s) (as : List A) :
    Trace (fun s a s' => s' = f s a) s₀ (l ++ visited f s as) (as.foldl f s) := by
  induction as generalizing l s with
  | nil => simpa [visited] using h
  | cons a as ih =>
      have h' := @ih (f s a) (l ++ [(s, a)]) (h.next rfl)
      rwa [List.append_assoc] at h'

/-- The run of a step function over a list of labels, with its steps. -/
theorem Trace.of_visited (f : S → A → S) (s₀ : S) (as : List A) :
    Trace (fun s a s' => s' = f s a) s₀ (visited f s₀ as) (as.foldl f s₀) :=
  Trace.append_visited .start as

/-- `Steps r t n s`: `n` steps lead from `s` to `t`. -/
inductive Steps (r : S → S → Prop) (t : S) : ℕ → S → Prop where
  | here : Steps r t 0 t
  | step {n : ℕ} {s s' : S} (hs : r s s') (h : Steps r t n s') : Steps r t (n + 1) s

theorem Steps.path {r : S → S → Prop} {s t : S} {n : ℕ} (h : Steps r t n s) :
    Relation.ReflTransGen r s t := by
  induction h with
  | here => exact .refl
  | step hs _ ih => exact .head hs ih

theorem exists_steps {r : S → S → Prop} {s t : S} (h : Relation.ReflTransGen r s t) :
    ∃ n, Steps r t n s := by
  induction h using Relation.ReflTransGen.head_induction_on with
  | refl => exact ⟨0, .here⟩
  | head hs _ ih =>
      obtain ⟨n, hn⟩ := ih
      exact ⟨n + 1, .step hs hn⟩

end DevDashboard.Lib
