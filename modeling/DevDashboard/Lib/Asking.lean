/-
  File:      DevDashboard/Lib/Asking.lean
  Subject:   PROGRAMS THAT ASK, AND THEIR TRANSCRIPTS.

  A program that reads values from outside is a tree: it is done with a result, or it asks a
  question and goes on with the answer. A transcript lists the questions of one run with their
  answers. What a program gives is fixed by its transcript, so two runs that are told the same
  end in the same result, wherever the answers came from.

  * `gives_bind`, `gives_via`, `gives_logged` -- transcripts of programs put together, of a
    program whose questions another one answers, and of a program that notes its answers;
  * `Gives.unique` -- **one transcript, one result**;
  * `answer_gives` -- every way to answer leaves a transcript;
  * `answer_bind`, `answer_queue` -- answers taken one after another from a state, or from a queue;
  * `Always` and its rules -- what holds of every result, whatever the answers.
-/
import Mathlib.Logic.Basic
import Mathlib.Data.List.Basic

namespace DevDashboard.Lib

/-- A program with questions in `Q`, answers in `R` and a result in `α`. -/
inductive Asking (Q R α : Type) : Type where
  | done (a : α)
  | ask (q : Q) (next : R → Asking Q R α)

namespace Asking

variable {Q Q' R α β σ : Type}

/-- The result of the first program is where the second one begins. -/
def bind : Asking Q R α → (α → Asking Q R β) → Asking Q R β
  | .done a, f => f a
  | .ask q next, f => .ask q fun r => (next r).bind f

instance : Monad (Asking Q R) where
  pure := done
  bind := bind

@[simp] theorem pure_eq (a : α) : (pure a : Asking Q R α) = .done a := rfl

@[simp] theorem done_bind (a : α) (f : α → Asking Q R β) : (done a >>= f) = f a := rfl

@[simp] theorem ask_bind (q : Q) (next : R → Asking Q R α) (f : α → Asking Q R β) :
    (ask q next >>= f) = ask q fun r => next r >>= f := rfl

theorem bind_bind {γ : Type} (p : Asking Q R α) (f : α → Asking Q R β) (k : β → Asking Q R γ) :
    (p >>= f) >>= k = p >>= fun a => f a >>= k := by
  induction p with
  | done a => rfl
  | ask q next ih =>
      simp only [ask_bind]
      exact congrArg (Asking.ask q) (funext ih)

/-- One question, for its answer. -/
def query (q : Q) : Asking Q R R := .ask q .done

/-! ## 1. Transcripts -/

/-- `p.Gives tr a`: told the answers of `tr`, the program asks the questions of `tr` and is done
    with `a`. -/
inductive Gives : Asking Q R α → List (Q × R) → α → Prop where
  | done (a : α) : Gives (.done a) [] a
  | ask {q : Q} {next : R → Asking Q R α} {r : R} {tr : List (Q × R)} {a : α}
      (h : Gives (next r) tr a) : Gives (.ask q next) ((q, r) :: tr) a

variable {p : Asking Q R α} {f : α → Asking Q R β} {tr : List (Q × R)} {a b : α}

@[simp] theorem gives_done : (done a : Asking Q R α).Gives tr b ↔ tr = [] ∧ b = a := by
  constructor
  · intro h
    cases h
    exact ⟨rfl, rfl⟩
  · rintro ⟨rfl, rfl⟩
    exact .done _

theorem gives_ask {q : Q} {next : R → Asking Q R α} :
    (ask q next).Gives tr a ↔ ∃ r tl, tr = (q, r) :: tl ∧ (next r).Gives tl a := by
  constructor
  · intro h
    cases h with
    | ask h => exact ⟨_, _, rfl, h⟩
  · rintro ⟨r, tl, rfl, h⟩
    exact .ask h

theorem gives_query {q : Q} {r : R} :
    (query q : Asking Q R R).Gives tr r ↔ tr = [(q, r)] := by
  simp [query, gives_ask]

/-- **The transcript of two programs in a row** is the one of the first, then the one of the
    second. -/
theorem gives_bind {b : β} :
    (p >>= f).Gives tr b ↔ ∃ t u a, tr = t ++ u ∧ p.Gives t a ∧ (f a).Gives u b := by
  induction p generalizing tr with
  | done a => simp
  | ask q next ih =>
      rw [ask_bind, gives_ask]
      constructor
      · rintro ⟨r, tl, rfl, h⟩
        obtain ⟨t, u, a, rfl, ht, hu⟩ := (ih r).mp h
        exact ⟨(q, r) :: t, u, a, rfl, .ask ht, hu⟩
      · rintro ⟨t, u, a, rfl, ht, hu⟩
        obtain ⟨r, tl, rfl, h⟩ := gives_ask.mp ht
        exact ⟨r, tl ++ u, rfl, (ih r).mpr ⟨tl, u, a, rfl, h, hu⟩⟩

/-- **One transcript, one result.** -/
theorem Gives.unique (h : p.Gives tr a) (h' : p.Gives tr b) : a = b := by
  induction h with
  | done => exact (gives_done.mp h').2.symm
  | ask _ ih =>
      cases h' with
      | ask h' => exact ih h'

/-- A program that can be done without an answer asks nothing. -/
theorem eq_done_of_gives_nil (h : p.Gives [] a) : p = .done a := by
  cases h
  rfl

/-! ## 2. Questions answered by another program -/

/-- Every question of `p` is put to `f`. -/
def via (f : Q → Asking Q' R R) : Asking Q R α → Asking Q' R α
  | .done a => .done a
  | .ask q next => f q >>= fun r => (next r).via f

/-- The transcript `u` of the answering program, in the course of a transcript of the program that
    asks. -/
inductive Answered (f : Q → Asking Q' R R) : List (Q × R) → List (Q' × R) → Prop where
  | nil : Answered f [] []
  | cons {q : Q} {r : R} {t u : List (Q' × R)} {tr : List (Q × R)} (h : (f q).Gives t r)
      (htr : Answered f tr u) : Answered f ((q, r) :: tr) (t ++ u)

theorem gives_via {f : Q → Asking Q' R R} {u : List (Q' × R)} :
    (p.via f).Gives u a ↔ ∃ tr, p.Gives tr a ∧ Answered f tr u := by
  induction p generalizing u with
  | done b =>
      rw [via, gives_done]
      constructor
      · rintro ⟨rfl, rfl⟩
        exact ⟨[], .done _, .nil⟩
      · rintro ⟨tr, h, hu⟩
        obtain ⟨rfl, rfl⟩ := gives_done.mp h
        cases hu
        exact ⟨rfl, rfl⟩
  | ask q next ih =>
      rw [via, gives_bind]
      constructor
      · rintro ⟨t, u, r, rfl, ht, hu⟩
        obtain ⟨tr, h, htr⟩ := (ih r).mp hu
        exact ⟨(q, r) :: tr, .ask h, .cons ht htr⟩
      · rintro ⟨tr, h, hu⟩
        obtain ⟨r, tl, rfl, hnext⟩ := gives_ask.mp h
        cases hu with
        | cons ht htr => exact ⟨_, _, r, rfl, ht, (ih r).mpr ⟨tl, hnext, htr⟩⟩

theorem Answered.append {f : Q → Asking Q' R R} {t t' : List (Q × R)} {u u' : List (Q' × R)}
    (h : Answered f t u) (h' : Answered f t' u') : Answered f (t ++ t') (u ++ u') := by
  induction h with
  | nil => exact h'
  | cons hq _ ih =>
      rw [List.append_assoc]
      exact .cons hq ih

/-! ## 3. Noted answers -/

/-- The program, with the list of the answers it got. -/
def logged : Asking Q R α → Asking Q R (α × List R)
  | .done a => .done (a, [])
  | .ask q next => .ask q fun r => (next r).logged >>= fun x => .done (x.1, r :: x.2)

theorem gives_logged {x : α × List R} :
    p.logged.Gives tr x ↔ p.Gives tr x.1 ∧ x.2 = tr.map Prod.snd := by
  induction p generalizing tr x with
  | done a =>
      obtain ⟨b, rs⟩ := x
      simp only [logged, gives_done, Prod.mk.injEq]
      constructor
      · rintro ⟨rfl, rfl, rfl⟩
        exact ⟨⟨rfl, rfl⟩, rfl⟩
      · rintro ⟨⟨rfl, rfl⟩, rfl⟩
        exact ⟨rfl, rfl, rfl⟩
  | ask q next ih =>
      rw [logged, gives_ask, gives_ask]
      constructor
      · rintro ⟨r, tl, rfl, h⟩
        obtain ⟨t, u, y, rfl, hy, hx⟩ := gives_bind.mp h
        obtain ⟨rfl, rfl⟩ := gives_done.mp hx
        obtain ⟨hp, hr⟩ := (ih r).mp hy
        exact ⟨⟨r, t, by rw [List.append_nil], hp⟩, by simp [hr]⟩
      · rintro ⟨⟨r, tl, rfl, h⟩, hx⟩
        refine ⟨r, tl, rfl, gives_bind.mpr ⟨tl, [], (x.1, tl.map Prod.snd), by simp, ?_, ?_⟩⟩
        · exact (ih r).mpr ⟨h, rfl⟩
        · obtain ⟨y, rs⟩ := x
          simp only at hx
          subst hx
          exact .done _

/-! ## 4. Ways to answer -/

/-- The result, and what becomes of the state the answers come from. -/
def answer (h : σ → Q → R × σ) : Asking Q R α → σ → α × σ
  | .done a, s => (a, s)
  | .ask q next, s => (next (h s q).1).answer h (h s q).2

/-- Every way to answer leaves a transcript. -/
theorem answer_gives (h : σ → Q → R × σ) (p : Asking Q R α) (s : σ) :
    ∃ tr, p.Gives tr (p.answer h s).1 := by
  induction p generalizing s with
  | done a => exact ⟨[], .done a⟩
  | ask q next ih =>
      obtain ⟨tr, htr⟩ := ih (h s q).1 (h s q).2
      exact ⟨_, .ask htr⟩

/-- Two programs in a row, answered in one way. -/
theorem answer_bind (h : σ → Q → R × σ) (p : Asking Q R α) (f : α → Asking Q R β) (s : σ) :
    (p >>= f).answer h s = (f (p.answer h s).1).answer h (p.answer h s).2 := by
  induction p generalizing s with
  | done a => rfl
  | ask q next ih => exact ih _ _

/-- Every question takes the head of a queue, or `z` where the queue is empty. -/
theorem answer_queue {z : R} {rest : List R} (h : p.Gives tr a) :
    p.answer (fun l _ => (l.headD z, l.tail)) (tr.map Prod.snd ++ rest) = (a, rest) := by
  induction h with
  | done a => rfl
  | ask _ ih => exact ih

/-! ## 5. What holds of every result -/

/-- Whatever the answers, the result has `P`. -/
def Always (p : Asking Q R α) (P : α → Prop) : Prop := ∀ tr a, p.Gives tr a → P a

theorem always_done {P : α → Prop} : (done a : Asking Q R α).Always P ↔ P a := by
  constructor
  · intro h
    exact h [] a (.done a)
  · intro h tr b hb
    rw [(gives_done.mp hb).2]
    exact h

theorem always_ask {q : Q} {next : R → Asking Q R α} {P : α → Prop} :
    (ask q next).Always P ↔ ∀ r, (next r).Always P := by
  constructor
  · intro h r tr a ha
    exact h _ a (.ask ha)
  · intro h tr a ha
    obtain ⟨r, tl, rfl, hnext⟩ := gives_ask.mp ha
    exact h r tl a hnext

/-- **Sequencing**: what the first program establishes is what the second may start from. -/
theorem Always.bind {P : α → Prop} {P' : β → Prop} (h : p.Always P)
    (hf : ∀ a, P a → (f a).Always P') : (p >>= f).Always P' := by
  intro tr b hb
  obtain ⟨t, u, a, rfl, ha, hb⟩ := gives_bind.mp hb
  exact hf a (h t a ha) u b hb

theorem Always.mono {P P' : α → Prop} (h : p.Always P) (hP : ∀ a, P a → P' a) : p.Always P' :=
  fun tr a ha => hP a (h tr a ha)

theorem Always.via {f : Q → Asking Q' R R} {P : α → Prop} (h : p.Always P) :
    (p.via f).Always P := by
  intro u a hu
  obtain ⟨tr, ha, _⟩ := gives_via.mp hu
  exact h tr a ha

theorem Always.logged {P : α → Prop} (h : p.Always P) : p.logged.Always fun x => P x.1 :=
  fun tr _ hx => h tr _ (gives_logged.mp hx).1

/-! ## 6. What is asked -/

/-- Whatever the answers, all questions have `P`. -/
inductive Asks (P : Q → Prop) : Asking Q R α → Prop where
  | done (a : α) : Asks P (.done a)
  | ask {q : Q} {next : R → Asking Q R α} (hq : P q) (h : ∀ r, Asks P (next r)) :
      Asks P (.ask q next)

theorem Asks.query {P : Q → Prop} {q : Q} (hq : P q) : (query q : Asking Q R R).Asks P :=
  .ask hq fun r => .done r

theorem Asks.bind {P : Q → Prop} (h : p.Asks P) (hf : ∀ a, (f a).Asks P) : (p >>= f).Asks P := by
  induction h with
  | done a => exact hf a
  | ask hq _ ih => exact .ask hq ih

/-- Questions that another program answers are that program's questions. -/
theorem Asks.via {P : Q' → Prop} {k : Q → Asking Q' R R} (hk : ∀ q, (k q).Asks P) :
    (p.via k).Asks P := by
  induction p with
  | done a => exact .done a
  | ask q next ih => exact (hk q).bind ih

end Asking

end DevDashboard.Lib
