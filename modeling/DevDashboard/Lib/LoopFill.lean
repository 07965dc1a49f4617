/-
  File:      DevDashboard/Lib/LoopFill.lean
  Subject:   LOOPS THAT READ PAGE AFTER PAGE UNTIL THEY HAVE ENOUGH.

  A round reads the page at a token and adds what it takes from it. The loop ends when it is full,
  when there is no further page, or when it has received as many keys as its cap says; the last is
  looked at only after a whole page was received.

  * `received_le_iff` -- the loop never receives more than its cap exactly if no round it starts
    is answered with a page that goes over it;
  * `received_lt` -- it goes over it by less than a page in any case;
  * `ends_iff` -- it ends exactly if it comes to no token from which on there are empty pages
    without end;
  * `exists_round_of_ok` -- what it ends with was made of a state that was not full and one page;
  * `reaches_iff` -- **the rounds of a loop and the pages of the store**: which rounds it starts,
    read off the walk over the pages alone.
-/
import Mathlib.Logic.Relation
import Mathlib.Algebra.Order.Ring.Int

namespace DevDashboard.Lib

/-- A loop: `read` gives a page and the token of the next one, `stop` at the end. -/
structure LoopFill (ε κ τ σ : Type) where
  read : τ → Except ε (List κ × τ)
  stop : τ
  absorb : σ → List κ → Except ε σ
  full : σ → Bool
  cap : Int

/-- Where a round starts. -/
structure LoopFill.Round (τ σ : Type) where
  token : τ
  scanned : Nat
  state : σ

namespace LoopFill

variable {ε κ τ σ : Type} [DecidableEq τ] (L : LoopFill ε κ τ σ)

/-! ## 1. Rounds -/

/-- The page at a token. -/
def page (token : τ) : List κ :=
  match L.read token with
  | .error _ => []
  | .ok (keys, _) => keys

/-- A round: how the loop ends with it, or the next round. -/
def next (r : Round τ σ) : Except ε (σ × τ) ⊕ Round τ σ :=
  match L.read r.token with
  | .error e => .inl (.error e)
  | .ok (keys, token) =>
      match L.absorb r.state keys with
      | .error e => .inl (.error e)
      | .ok st =>
          if L.full st = true ∨ token = L.stop ∨ L.cap ≤ ((r.scanned + keys.length : Nat) : Int) then
            .inl (.ok (st, token))
          else .inr ⟨token, r.scanned + keys.length, st⟩

/-- The keys received in some rounds, and how the loop ended; `none` if it did not. -/
def run : Nat → Round τ σ → List κ × Option (Except ε (σ × τ))
  | 0, _ => ([], none)
  | n + 1, r =>
      match L.next r with
      | .inl out => (L.page r.token, some out)
      | .inr r' => (L.page r.token ++ (run n r').1, (run n r').2)

/-- The rounds a loop comes to. -/
def Reaches : Round τ σ → Round τ σ → Prop := Relation.ReflTransGen fun r r' => L.next r = .inr r'

variable {L} {r r' : Round τ σ}

/-- **What a round does that another one follows.** -/
theorem next_inr (h : L.next r = .inr r') :
    L.read r.token = .ok (L.page r.token, r'.token) ∧
      L.absorb r.state (L.page r.token) = .ok r'.state ∧
      r'.scanned = r.scanned + (L.page r.token).length ∧ L.full r'.state = false ∧
      r'.token ≠ L.stop ∧ (r'.scanned : Int) < L.cap := by
  unfold next at h
  cases hr : L.read r.token with
  | error e => simp [hr] at h
  | ok answer =>
      obtain ⟨keys, token⟩ := answer
      have hp : L.page r.token = keys := by rw [page, hr]
      rw [hp]
      simp only [hr] at h
      cases ha : L.absorb r.state keys with
      | error e => simp [ha] at h
      | ok st =>
          simp only [ha] at h
          split at h
          · cases h
          · rename_i hn
            rw [not_or, not_or, not_le] at hn
            cases h
            exact ⟨rfl, rfl, rfl, by simpa using hn.1, hn.2.1, hn.2.2⟩

/-- **What a round does that ends the loop with a result.** -/
theorem next_inl_ok {st : σ} {token : τ} (h : L.next r = .inl (.ok (st, token))) :
    L.absorb r.state (L.page r.token) = .ok st := by
  unfold next at h
  cases hr : L.read r.token with
  | error e => simp [hr] at h
  | ok answer =>
      obtain ⟨keys, token'⟩ := answer
      have hp : L.page r.token = keys := by rw [page, hr]
      rw [hp]
      simp only [hr] at h
      cases ha : L.absorb r.state keys with
      | error e => simp [ha] at h
      | ok st' =>
          simp only [ha] at h
          split at h
          · cases h
            rfl
          · cases h

theorem run_succ_of_inr (h : L.next r = .inr r') (n : Nat) :
    L.run (n + 1) r = (L.page r.token ++ (L.run n r').1, (L.run n r').2) := by
  rw [run, h]

theorem run_succ_of_inl {out : Except ε (σ × τ)} (h : L.next r = .inl out) (n : Nat) :
    L.run (n + 1) r = (L.page r.token, some out) := by
  rw [run, h]

/-! ## 2. What is received -/

/-- **The cap is kept exactly if no page goes over it**: in no round that the loop starts, with
    what was received before. -/
theorem received_le_iff :
    (∀ n, ((r.scanned + (L.run n r).1.length : Nat) : Int) ≤ L.cap) ↔
      ∀ r', L.Reaches r r' → ((r'.scanned + (L.page r'.token).length : Nat) : Int) ≤ L.cap := by
  constructor
  · intro h r' hr
    induction hr using Relation.ReflTransGen.head_induction_on with
    | refl =>
        have h1 := h 1
        cases hn : L.next r' with
        | inl out => rwa [run_succ_of_inl hn] at h1
        | inr r'' =>
            rw [run_succ_of_inr hn] at h1
            simpa [run] using h1
    | @head a c hac hcr ih =>
        refine ih fun n => ?_
        have hn := h (n + 1)
        rw [run_succ_of_inr hac, List.length_append, ← Nat.add_assoc, ← (next_inr hac).2.2.1] at hn
        exact hn
  · intro h n
    induction n generalizing r with
    | zero =>
        have h0 := h r .refl
        simp only [run, List.length_nil]
        omega
    | succ n ih =>
        cases hn : L.next r with
        | inl out =>
            rw [run_succ_of_inl hn]
            exact h r .refl
        | inr r' =>
            rw [run_succ_of_inr hn, List.length_append, ← Nat.add_assoc, ← (next_inr hn).2.2.1]
            exact ih fun r'' hr => h r'' (.head hn hr)

theorem not_full_of_reaches (h : L.Reaches r r') (h0 : L.full r.state = false)
    (hc : (r.scanned : Int) < L.cap) :
    L.full r'.state = false ∧ (r'.scanned : Int) < L.cap := by
  cases h using Relation.ReflTransGen.casesOn with
  | refl => exact ⟨h0, hc⟩
  | tail _ hs =>
      obtain ⟨-, -, -, hf, -, hlt⟩ := next_inr hs
      exact ⟨hf, hlt⟩

/-- **The cap is missed by less than a page.** -/
theorem received_lt {m : Nat} (hpage : ∀ token, (L.page token).length ≤ m)
    (hc : (r.scanned : Int) < L.cap) (n : Nat) :
    ((r.scanned + (L.run n r).1.length : Nat) : Int) < L.cap + m := by
  induction n generalizing r with
  | zero =>
      simp only [run, List.length_nil]
      omega
  | succ n ih =>
      cases hn : L.next r with
      | inl out =>
          have := hpage r.token
          rw [run_succ_of_inl hn]
          show ((r.scanned + (L.page r.token).length : Nat) : Int) < L.cap + m
          omega
      | inr r' =>
          obtain ⟨-, -, hs, -, -, hlt⟩ := next_inr hn
          rw [run_succ_of_inr hn, List.length_append, ← Nat.add_assoc, ← hs]
          exact ih hlt

/-! ## 3. Where the loop ends -/

variable (L) in
/-- Where some empty pages lead from a token; `none` if they are not all empty or end before. -/
def followBlank : Nat → τ → Option τ
  | 0, token => some token
  | n + 1, token =>
      match L.read token with
      | .ok ([], next) => if next = L.stop then none else followBlank n next
      | _ => none

variable (L) in
/-- From the token on there are empty pages without end. -/
def EndlessBlank (token : τ) : Prop := ∀ n, L.followBlank n token ≠ none

/-- One page of them: it is empty, and from the next token on there are others. -/
theorem EndlessBlank.next {token : τ} (h : L.EndlessBlank token) :
    ∃ token', L.read token = .ok ([], token') ∧ token' ≠ L.stop ∧ L.EndlessBlank token' := by
  have h1 := h 1
  unfold followBlank at h1
  cases hr : L.read token with
  | error e => simp [hr] at h1
  | ok answer =>
      obtain ⟨keys, token'⟩ := answer
      cases keys with
      | cons k keys => simp [hr] at h1
      | nil =>
          have hne : token' ≠ L.stop := fun he => by simp [hr, he] at h1
          refine ⟨token', rfl, hne, fun n => ?_⟩
          have hn := h (n + 1)
          rw [followBlank, hr] at hn
          simpa [hne] using hn

/-- A round that meets an empty page goes on as it stands. -/
theorem next_of_blank (hnil : ∀ st, L.absorb st [] = .ok st) {token : τ}
    (hr : L.read r.token = .ok ([], token)) (hne : token ≠ L.stop) (hf : L.full r.state = false)
    (hc : (r.scanned : Int) < L.cap) : L.next r = .inr { r with token } := by
  unfold LoopFill.next
  rw [hr]
  simp only [hnil, hf, hne, List.length_nil, Nat.add_zero]
  rw [if_neg (by simp [hc])]

theorem not_ends_of_endless (hnil : ∀ st, L.absorb st [] = .ok st)
    (h : L.EndlessBlank r.token) (hf : L.full r.state = false) (hc : (r.scanned : Int) < L.cap)
    (n : Nat) : (L.run n r).2 = none := by
  induction n generalizing r with
  | zero => rfl
  | succ n ih =>
      obtain ⟨token, hr, hne, hrest⟩ := h.next
      have hn := next_of_blank hnil hr hne hf hc
      rw [run_succ_of_inr hn]
      exact ih hrest hf hc

/-- The rounds the loop comes to after some empty pages that end: it ends, if it does wherever it
    has received more. -/
theorem ends_of_blank {k : Nat} (hk : L.followBlank k r.token = none) (hf : L.full r.state = false)
    (hc : (r.scanned : Int) < L.cap)
    (hmore : ∀ r', L.Reaches r r' → r.scanned < r'.scanned → ∃ n, (L.run n r').2 ≠ none) :
    ∃ n, (L.run n r).2 ≠ none := by
  induction k generalizing r with
  | zero => cases hk
  | succ k ih =>
      cases hn : L.next r with
      | inl out => exact ⟨1, by simp [run_succ_of_inl hn]⟩
      | inr r' =>
          obtain ⟨hr, ha, hs, hf', hne, hc'⟩ := next_inr hn
          have hend : ∃ n, (L.run n r').2 ≠ none := by
            by_cases hp : L.page r.token = []
            · rw [hp] at hr hs
              rw [followBlank, hr] at hk
              simp only [hne, if_false] at hk
              refine ih hk hf' hc' fun r'' hreach hlt => hmore r'' (.head hn hreach) ?_
              simpa [hs] using hlt
            · have := List.length_pos_iff.mpr hp
              exact hmore r' (.single hn) (by omega)
          obtain ⟨n, hn'⟩ := hend
          exact ⟨n + 1, by rwa [run_succ_of_inr hn]⟩

/-- **The loop ends exactly if it comes to no token from which on there are empty pages without
    end.** Rounds that receive keys are bounded by the cap. -/
theorem ends_iff (hnil : ∀ st, L.absorb st [] = .ok st) (hf : L.full r.state = false)
    (hc : (r.scanned : Int) < L.cap) :
    (∃ n, (L.run n r).2 ≠ none) ↔ ¬ ∃ r', L.Reaches r r' ∧ L.EndlessBlank r'.token := by
  constructor
  · rintro ⟨n, hn⟩ ⟨r', hr, hend⟩
    induction hr using Relation.ReflTransGen.head_induction_on generalizing n with
    | refl => exact hn (not_ends_of_endless hnil hend hf hc n)
    | @head a c hac hcr ih =>
        obtain ⟨-, -, -, hf', -, hc'⟩ := next_inr hac
        cases n with
        | zero => exact hn rfl
        | succ n =>
            rw [run_succ_of_inr hac] at hn
            exact ih hf' hc' n hn
  · intro h
    -- on how far the cap is
    generalize hd : (L.cap - r.scanned).toNat = d
    induction d using Nat.strong_induction_on generalizing r with
    | h d ih =>
        have hnot : ¬ L.EndlessBlank r.token := fun he => h ⟨r, .refl, he⟩
        obtain ⟨k, hk⟩ : ∃ k, L.followBlank k r.token = none := by
          by_contra hne
          exact hnot fun k hkn => hne ⟨k, hkn⟩
        refine ends_of_blank hk hf hc fun r' hreach hlt => ?_
        obtain ⟨hf', hc'⟩ := not_full_of_reaches hreach hf hc
        refine ih _ (by omega) hf' hc' (fun ⟨r'', hr'', hend⟩ => ?_) rfl
        exact h ⟨r'', hreach.trans hr'', hend⟩

/-- **What the loop ends with** was made of the state of a round and its page. -/
theorem exists_round_of_ok {n : Nat} {st : σ} {token : τ} (h : (L.run n r).2 = some (.ok (st, token))) :
    ∃ r', L.Reaches r r' ∧ L.absorb r'.state (L.page r'.token) = .ok st := by
  induction n generalizing r with
  | zero => cases h
  | succ n ih =>
      cases hn : L.next r with
      | inl out =>
          rw [run_succ_of_inl hn] at h
          obtain rfl := Option.some.inj h
          exact ⟨r, .refl, next_inl_ok hn⟩
      | inr r' =>
          rw [run_succ_of_inr hn] at h
          obtain ⟨r'', hr, ha⟩ := ih h
          exact ⟨r'', .head hn hr, ha⟩

/-! ## 4. The pages of the store -/

section Pages

variable (L)

/-- The token of the `n`-th page from a token on; `none` if there are no more than `n` pages. -/
def tokenAfter : Nat → τ → Option τ
  | 0, token => some token
  | n + 1, token =>
      match L.read token with
      | .error _ => none
      | .ok (_, next) => if next = L.stop then none else tokenAfter n next

/-- The first `n` pages from a token on. -/
def pagesFrom : Nat → τ → List (List κ)
  | 0, _ => []
  | n + 1, token =>
      match L.read token with
      | .error _ => []
      | .ok (keys, next) => keys :: if next = L.stop then [] else pagesFrom n next

/-- How many keys the first `n` pages hold. -/
def total (n : Nat) (token : τ) : Nat := (L.pagesFrom n token).flatten.length

/-- What the first `n` pages add to a state. -/
def gathered (n : Nat) (token : τ) (st : σ) : Except ε σ := (L.pagesFrom n token).foldlM L.absorb st

variable {L} {token token' : τ} {n : Nat}

@[simp] theorem total_zero : L.total 0 token = 0 := rfl

@[simp] theorem gathered_zero (st : σ) : L.gathered 0 token st = .ok st := rfl

theorem tokenAfter_succ {keys : List κ} (hr : L.read token = .ok (keys, token'))
    (hne : token' ≠ L.stop) : L.tokenAfter (n + 1) token = L.tokenAfter n token' := by
  rw [tokenAfter, hr]
  exact if_neg hne

theorem pagesFrom_succ {keys : List κ} (hr : L.read token = .ok (keys, token'))
    (hne : token' ≠ L.stop) : L.pagesFrom (n + 1) token = keys :: L.pagesFrom n token' := by
  rw [pagesFrom, hr]
  exact congrArg _ (if_neg hne)

theorem total_succ {keys : List κ} (hr : L.read token = .ok (keys, token'))
    (hne : token' ≠ L.stop) : L.total (n + 1) token = keys.length + L.total n token' := by
  rw [total, pagesFrom_succ hr hne, List.flatten_cons, List.length_append, total]

theorem gathered_succ {keys : List κ} (hr : L.read token = .ok (keys, token'))
    (hne : token' ≠ L.stop) (st : σ) :
    L.gathered (n + 1) token st = (L.absorb st keys).bind (L.gathered n token') := by
  rw [gathered, pagesFrom_succ hr hne, List.foldlM_cons]
  rfl

/-- A token that another one follows. -/
theorem exists_of_tokenAfter_succ (h : L.tokenAfter (n + 1) token = some token') :
    ∃ keys next, L.read token = .ok (keys, next) ∧ next ≠ L.stop ∧
      L.tokenAfter n next = some token' := by
  rw [tokenAfter] at h
  cases hr : L.read token with
  | error e => simp [hr] at h
  | ok answer =>
      obtain ⟨keys, next⟩ := answer
      simp only [hr] at h
      split at h
      · cases h
      · exact ⟨keys, next, rfl, ‹_›, h⟩

/-- One page more. -/
theorem total_succ_eq : L.total (n + 1) token =
    L.total n token + ((L.tokenAfter n token).elim 0 fun t => (L.page t).length) := by
  induction n generalizing token with
  | zero =>
      rw [total, pagesFrom, tokenAfter, Option.elim_some, page]
      cases L.read token with
      | error e => rfl
      | ok answer =>
          obtain ⟨keys, next⟩ := answer
          simp [pagesFrom]
  | succ n ih =>
      cases hr : L.read token with
      | error e => simp [total, pagesFrom, tokenAfter, hr]
      | ok answer =>
          obtain ⟨keys, next⟩ := answer
          by_cases hs : next = L.stop
          · simp [total, pagesFrom, tokenAfter, hr, hs]
          · rw [total_succ hr hs, total_succ hr hs, tokenAfter_succ hr hs, ih, Nat.add_assoc]

/-- Pages keep a full state full. -/
theorem full_of_gathered (hkeep : ∀ st keys st', L.absorb st keys = .ok st' → L.full st = true →
      L.full st' = true) {st st' : σ} (h : L.gathered n token st = .ok st')
    (hf : L.full st = true) : L.full st' = true := by
  unfold gathered at h
  generalize L.pagesFrom n token = pages at h
  induction pages generalizing st with
  | nil =>
      obtain rfl := Except.ok.inj h
      exact hf
  | cons keys pages ih =>
      rw [List.foldlM_cons] at h
      cases ha : L.absorb st keys with
      | error e =>
          rw [ha] at h
          cases h
      | ok st₁ =>
          rw [ha] at h
          exact ih (hkeep _ _ _ ha hf) h

/-- **The rounds of a loop and the pages of the store.** A loop whose rounds keep a full state full
    starts a round at each page before which neither the pages have filled it nor their keys have
    come up to the cap. -/
theorem reaches_iff (hkeep : ∀ st keys st', L.absorb st keys = .ok st' → L.full st = true →
      L.full st' = true) (hf : L.full r.state = false) (hc : (r.scanned : Int) < L.cap) :
    L.Reaches r r' ↔ ∃ n, L.tokenAfter n r.token = some r'.token ∧
      L.gathered n r.token r.state = .ok r'.state ∧ r'.scanned = r.scanned + L.total n r.token ∧
      L.full r'.state = false ∧ (r'.scanned : Int) < L.cap := by
  constructor
  · intro h
    induction h using Relation.ReflTransGen.head_induction_on with
    | refl => exact ⟨0, rfl, rfl, rfl, hf, hc⟩
    | @head a c hac _ ih =>
        obtain ⟨hr, ha, hs, hf', hne, hc'⟩ := next_inr hac
        obtain ⟨n, ht, hg, hsc, hfull, hlt⟩ := ih hf' hc'
        refine ⟨n + 1, ?_, ?_, ?_, hfull, hlt⟩
        · rw [tokenAfter_succ hr hne, ht]
        · rw [gathered_succ hr hne, ha]
          exact hg
        · rw [total_succ hr hne, hsc, hs, Nat.add_assoc]
  · rintro ⟨n, ht, hg, hsc, hfull, hlt⟩
    induction n generalizing r with
    | zero =>
        have heq : r = r' := by
          obtain ⟨t, k, st⟩ := r
          obtain ⟨t', k', st'⟩ := r'
          cases Option.some.inj ht
          cases Except.ok.inj hg
          cases hsc
          rfl
        rw [heq]
        exact .refl
    | succ n ih =>
        obtain ⟨keys, next, hr, hne, ht'⟩ := exists_of_tokenAfter_succ ht
        rw [gathered_succ hr hne] at hg
        rw [total_succ hr hne] at hsc
        cases ha : L.absorb r.state keys with
        | error e =>
            rw [ha] at hg
            cases hg
        | ok st =>
            rw [ha] at hg
            -- the state was not full before, as it is not full later
            have hst : L.full st = false := by
              by_contra hn
              rw [full_of_gathered hkeep hg (by simpa using hn)] at hfull
              cases hfull
            have hcap : ((r.scanned + keys.length : Nat) : Int) < L.cap := by omega
            have hstep : L.next r = .inr ⟨next, r.scanned + keys.length, st⟩ := by
              unfold LoopFill.next
              simp only [hr, ha]
              rw [if_neg (by simp only [hst, hne]; simpa using hcap)]
            exact .head hstep (ih hst hcap ht' hg (by rw [hsc, Nat.add_assoc]))

/-- **The cap is kept exactly if the pages keep it**: where the keys of the pages come from below
    the cap to above it, the pages before have filled the loop, or cannot all be taken. -/
theorem keepsCap_iff (token : τ) {st₀ : σ} (hkeep : ∀ st keys st', L.absorb st keys = .ok st' →
      L.full st = true → L.full st' = true) (hf : L.full st₀ = false) (hc : 0 < L.cap) :
    (∀ n, (((L.run n ⟨token, 0, st₀⟩).1.length : Nat) : Int) ≤ L.cap) ↔
      ∀ n, (L.total n token : Int) < L.cap → L.cap < L.total (n + 1) token →
        ∀ st, L.gathered n token st₀ = .ok st → L.full st = true := by
  have hrun := @received_le_iff ε κ τ σ _ L ⟨token, 0, st₀⟩
  simp only [Nat.zero_add] at hrun
  rw [hrun]
  have hiff := fun r' => @reaches_iff ε κ τ σ _ L ⟨token, 0, st₀⟩ r' hkeep hf hc
  constructor
  · intro h n hlt hgt st hg
    by_contra hn
    cases ht : L.tokenAfter n token with
    | none =>
        rw [total_succ_eq, ht, Option.elim_none, Nat.add_zero] at hgt
        exact absurd hgt (not_lt.mpr hlt.le)
    | some t =>
        have := h ⟨t, L.total n token, st⟩
          ((hiff _).mpr ⟨n, ht, hg, by simp, by simpa using hn, hlt⟩)
        rw [total_succ_eq, ht, Option.elim_some] at hgt
        exact absurd hgt (not_lt.mpr this)
  · intro h r' hr
    obtain ⟨n, ht, hg, hsc, hfull, hlt⟩ := (hiff r').mp hr
    simp only [Nat.zero_add] at hsc
    by_contra hn
    rw [not_le, hsc] at hn
    rw [hsc] at hlt
    have hgt : L.cap < L.total (n + 1) token := by
      rw [total_succ_eq, ht, Option.elim_some]
      exact hn
    rw [h n hlt hgt _ hg] at hfull
    cases hfull

/-- **The loop ends exactly if the pages end it**: before empty pages without end they have filled
    it, come up to the cap, or cannot all be taken. -/
theorem ends_pages_iff (token : τ) {st₀ : σ} (hkeep : ∀ st keys st', L.absorb st keys = .ok st' →
      L.full st = true → L.full st' = true) (hnil : ∀ st, L.absorb st [] = .ok st)
    (hf : L.full st₀ = false) (hc : 0 < L.cap) :
    (∃ n, (L.run n ⟨token, 0, st₀⟩).2 ≠ none) ↔
      ∀ n t, L.tokenAfter n token = some t → L.EndlessBlank t → (L.total n token : Int) < L.cap →
        ∀ st, L.gathered n token st₀ = .ok st → L.full st = true := by
  rw [ends_iff hnil hf hc]
  have hiff := fun r' => @reaches_iff ε κ τ σ _ L ⟨token, 0, st₀⟩ r' hkeep hf hc
  constructor
  · intro h n t ht hend hlt st hg
    by_contra hn
    exact h ⟨⟨t, L.total n token, st⟩,
      (hiff _).mpr ⟨n, ht, hg, by simp, by simpa using hn, hlt⟩, hend⟩
  · rintro h ⟨r', hr, hend⟩
    obtain ⟨n, ht, hg, hsc, hfull, hlt⟩ := (hiff r').mp hr
    simp only [Nat.zero_add] at hsc
    rw [hsc] at hlt
    rw [h n _ ht hend hlt _ hg] at hfull
    cases hfull

/-- Full pages: each page that another one follows holds `m` keys, and none holds more. -/
structure FullPages (L : LoopFill ε κ τ σ) (m : Nat) : Prop where
  full : ∀ token keys next, L.read token = .ok (keys, next) → next ≠ L.stop → keys.length = m
  le : ∀ token, (L.page token).length ≤ m

theorem FullPages.total_eq {m : Nat} (h : L.FullPages m) (ht : L.tokenAfter n token = some token') :
    L.total n token = n * m := by
  induction n generalizing token with
  | zero => simp
  | succ n ih =>
      obtain ⟨keys, next, hr, hne, ht'⟩ := exists_of_tokenAfter_succ ht
      rw [total_succ hr hne, h.full _ _ _ hr hne, ih ht', Nat.succ_mul, Nat.add_comm]

theorem FullPages.not_endlessBlank {m : Nat} (h : L.FullPages m) (hm : 0 < m) :
    ¬ L.EndlessBlank token := by
  intro he
  obtain ⟨next, hr, hne, -⟩ := he.next
  have := h.full _ _ _ hr hne
  rw [List.length_nil] at this
  omega

/-- Full pages meet a cap that is a number of pages. -/
theorem FullPages.total_succ_le {m k : Nat} (h : L.FullPages m) (hlt : L.total n token < k * m) :
    L.total (n + 1) token ≤ k * m := by
  rw [total_succ_eq]
  cases ht : L.tokenAfter n token with
  | none => exact hlt.le
  | some t =>
      rw [h.total_eq ht] at hlt ⊢
      have hn : n + 1 ≤ k := Nat.lt_of_mul_lt_mul_right hlt
      calc n * m + (L.page t).length ≤ n * m + m := Nat.add_le_add_left (h.le t) _
        _ = (n + 1) * m := (Nat.succ_mul n m).symm
        _ ≤ k * m := Nat.mul_le_mul_right m hn

end Pages

end LoopFill

end DevDashboard.Lib
