/-
  File:      DevDashboard/Lib/Paging.lean
  Subject:   CURSOR PAGING.

  A cursor splits a list into consecutive pages: reading at a token gives a page and the token of
  the next one, empty at the end. A client that follows the tokens of calls which each consume
  some whole pages gets everything once (`walk_perm`). `walkPages` keeps the answers apart
  (`walkPages_perm`). `cut` is a cursor: its pages are consecutive (`pages_cut`).
-/
import Mathlib.Data.List.Perm.Basic

namespace DevDashboard.Lib.Paging

variable {ε κ α σ τ : Type} [DecidableEq τ]

/-- The pages a cursor gives from a token on; `stop` is the token that ends it. -/
inductive Pages (stop : τ) (read : τ → Except ε (List κ × τ)) : τ → List (List κ) → Prop where
  | last {tok : τ} {ks : List κ} (h : read tok = .ok (ks, stop)) : Pages stop read tok [ks]
  | more {tok next : τ} {ks : List κ} {rest : List (List κ)} (h : read tok = .ok (ks, next))
      (hne : next ≠ stop) (hrest : Pages stop read next rest) : Pages stop read tok (ks :: rest)

omit [DecidableEq τ] in
/-- Every page is read at some token. -/
theorem Pages.exists_read {stop : τ} {read : τ → Except ε (List κ × τ)} {tok : τ}
    {pages : List (List κ)} (h : Pages stop read tok pages) :
    ∀ page ∈ pages, ∃ tok next, read tok = .ok (page, next) := by
  induction h with
  | @last tok ks hread =>
      intro page hp
      obtain rfl := List.mem_singleton.mp hp
      exact ⟨tok, stop, hread⟩
  | @more tok next ks rest hread hne hrest ih =>
      intro page hp
      rcases List.mem_cons.mp hp with rfl | hp
      · exact ⟨tok, next, hread⟩
      · exact ih page hp

/-- A page of a list, at a token that says how many elements are behind it. -/
def cut (l : List κ) (pageSize : Nat) (tok : List Char) : List κ × List Char :=
  ((l.drop tok.length).take pageSize,
    if tok.length + pageSize < l.length then List.replicate (tok.length + pageSize) '+' else [])

/-- The pages from an offset on. -/
theorem pages_cut_from (l : List κ) {pageSize : Nat} (hpos : 0 < pageSize) :
    ∀ m off, l.length ≤ off + m →
      ∃ pages, Pages [] (fun tok => (.ok (cut l pageSize tok) : Except ε _))
          (List.replicate off '+') pages ∧
        (∀ p ∈ pages, p.length ≤ pageSize) ∧ pages.flatten = l.drop off := by
  intro m
  induction m with
  | zero =>
      intro off hm
      have hdrop : l.drop off = [] := List.drop_eq_nil_iff.mpr (by omega)
      refine ⟨[[]], .last ?_, by simp, by simp [hdrop]⟩
      simp only [cut, List.length_replicate, hdrop, List.take_nil]
      rw [if_neg (by omega)]
  | succ m ih =>
      intro off hm
      by_cases hmore : off + pageSize < l.length
      · obtain ⟨pages, hpages, hlen, hflat⟩ := ih (off + pageSize) (by omega)
        refine ⟨(l.drop off).take pageSize :: pages, .more ?_ ?_ hpages, ?_, ?_⟩
        · simp only [cut, List.length_replicate, if_pos hmore]
        · simp only [ne_eq, List.replicate_eq_nil_iff]
          omega
        · refine List.forall_mem_cons.mpr ⟨?_, hlen⟩
          rw [List.length_take]
          exact Nat.min_le_left _ _
        · rw [List.flatten_cons, hflat, ← List.drop_drop, List.take_append_drop]
      · refine ⟨[l.drop off], .last ?_, ?_, by simp⟩
        · simp only [cut, List.length_replicate, if_neg hmore]
          rw [List.take_of_length_le]
          rw [List.length_drop]
          omega
        · intro p hp
          rw [List.mem_singleton.mp hp, List.length_drop]
          omega

/-- **The pages of a list that is cut** are its consecutive parts. -/
theorem pages_cut (l : List κ) {pageSize : Nat} (hpos : 0 < pageSize) :
    ∃ pages, Pages [] (fun tok => (.ok (cut l pageSize tok) : Except ε _)) [] pages ∧
      (∀ p ∈ pages, p.length ≤ pageSize) ∧ pages.flatten = l :=
  pages_cut_from l hpos l.length 0 (by omega)

theorem mem_of_mem_cut {l : List κ} {pageSize : Nat} {tok : List Char} {k : κ}
    (h : k ∈ (cut l pageSize tok).1) : k ∈ l :=
  List.mem_of_mem_drop (List.mem_of_mem_take h)

/-- A cursor whose first page is empty; the others are those of `read`. -/
def afterEmpty (read : List Char → Except ε (List κ × List Char)) :
    List Char → Except ε (List κ × List Char)
  | [] => .ok ([], ['+'])
  | _ :: tok => (read tok).map fun r => (r.1, if r.2 = [] then [] else '+' :: r.2)

theorem pages_afterEmpty_cons {read : List Char → Except ε (List κ × List Char)} {tok : List Char}
    {pages : List (List κ)} (h : Pages [] read tok pages) :
    Pages [] (afterEmpty read) ('+' :: tok) pages := by
  induction h with
  | @last tok ks hread => exact .last (by rw [afterEmpty, hread]; rfl)
  | @more tok next ks rest hread hne hrest ih =>
      refine @Pages.more ε κ (List Char) [] _ _ ('+' :: next) _ _ ?_ (by simp) ih
      rw [afterEmpty, hread]
      simp only [Except.map, if_neg hne]

theorem pages_afterEmpty {read : List Char → Except ε (List κ × List Char)}
    {pages : List (List κ)} (h : Pages [] read [] pages) :
    Pages [] (afterEmpty read) [] ([] :: pages) :=
  .more rfl (by simp) (pages_afterEmpty_cons h)

/-- Follow the tokens: call after call until one answers with `stop`. `none` is a walk cut short
    after the given number of calls. -/
def walk (stop : τ) (call : τ → σ → Option (Except ε (List α × τ × σ))) :
    Nat → τ → σ → Option (Except ε (List α))
  | 0, _, _ => none
  | n + 1, tok, st =>
      match call tok st with
      | none => none
      | some (.error e) => some (.error e)
      | some (.ok (items, next, st')) =>
          if next = stop then some (.ok items)
          else
            match walk stop call n next st' with
            | some (.ok rows) => some (.ok (items ++ rows))
            | r => r

/-- A call consumes some whole pages and says where to go on. -/
structure Consumes (stop : τ) (read : τ → Except ε (List κ × τ)) (F : List κ → List α)
    (Inv : σ → Prop) (pages : List (List κ))
    (answer : Option (Except ε (List α × τ × σ))) : Prop where
  exists_split : ∃ used rest items next st', pages = used ++ rest ∧ used ≠ [] ∧
    answer = some (.ok (items, next, st')) ∧ items.Perm (F used.flatten) ∧ Inv st' ∧
    ((next = stop ∧ rest = []) ∨ (next ≠ stop ∧ Pages stop read next rest))

/-- **A walk over calls that consume whole pages gets everything once**, and it ends. `P` is what
    the calls need to know of the pages still to come. -/
theorem walk_perm {stop : τ} {read : τ → Except ε (List κ × τ)} {F : List κ → List α}
    (hF : ∀ a b, F (a ++ b) = F a ++ F b) {Inv : σ → Prop} {P : List (List κ) → Prop}
    (hP : ∀ a b, P (a ++ b) → P b) {call : τ → σ → Option (Except ε (List α × τ × σ))}
    {m : Nat}
    (hcall : ∀ tok pages st, Pages stop read tok pages → pages.length ≤ m → P pages → Inv st →
      Consumes stop read F Inv pages (call tok st)) :
    ∀ (n : Nat) (tok : τ) (pages : List (List κ)) (st : σ), Pages stop read tok pages →
      pages.length ≤ m → pages.length ≤ n → P pages → Inv st →
      ∃ rows, walk stop call n tok st = some (.ok rows) ∧ rows.Perm (F pages.flatten) := by
  intro n
  induction n with
  | zero =>
      intro tok pages st hp _ hn
      cases hp <;> exact absurd hn (by simp)
  | succ n ih =>
      intro tok pages st hp hm hn hprop hinv
      obtain ⟨used, rest, items, next, st', rfl, hne, hans, hperm, hinv', hrest⟩ :=
        (hcall tok pages st hp hm hprop hinv).exists_split
      have hlen := List.length_pos_iff.mpr hne
      rw [List.length_append] at hn hm
      unfold walk
      rw [hans]
      rcases hrest with ⟨rfl, rfl⟩ | ⟨hnext, hrest⟩
      · exact ⟨items, by simp, by simpa using hperm⟩
      · obtain ⟨rows, hw, hrows⟩ :=
          ih next rest st' hrest (by omega) (by omega) (hP used rest hprop) hinv'
        refine ⟨items ++ rows, by simp [hnext, hw], ?_⟩
        rw [List.flatten_append, hF]
        exact hperm.append hrows

/-! ## Walks page by page -/

/-- The walk of `walk`, its answers one by one. -/
def walkPages (stop : τ) (call : τ → σ → Option (Except ε (List α × τ × σ))) :
    Nat → τ → σ → Option (Except ε (List (List α)))
  | 0, _, _ => none
  | n + 1, tok, st =>
      match call tok st with
      | none => none
      | some (.error e) => some (.error e)
      | some (.ok (items, next, st')) =>
          if next = stop then some (.ok [items])
          else
            match walkPages stop call n next st' with
            | some (.ok pages) => some (.ok (items :: pages))
            | r => r

/-- What a completed walk is made of: its first answer, and the rest of the walk. -/
theorem walkPages_ok {stop : τ} {call : τ → σ → Option (Except ε (List α × τ × σ))} {n : Nat}
    {tok : τ} {st : σ} {pages : List (List α)}
    (h : walkPages stop call (n + 1) tok st = some (.ok pages)) :
    ∃ items next st', call tok st = some (.ok (items, next, st')) ∧
      ((next = stop ∧ pages = [items]) ∨
        (next ≠ stop ∧ ∃ rest, pages = items :: rest ∧
          walkPages stop call n next st' = some (.ok rest))) := by
  rw [walkPages] at h
  cases hc : call tok st with
  | none => simp [hc] at h
  | some answer =>
      cases answer with
      | error e => simp [hc] at h
      | ok answer =>
          obtain ⟨items, next, st'⟩ := answer
          simp only [hc] at h
          refine ⟨items, next, st', rfl, ?_⟩
          by_cases hn : next = stop
          · rw [if_pos hn] at h
            exact .inl ⟨hn, (Except.ok.inj (Option.some.inj h)).symm⟩
          · rw [if_neg hn] at h
            cases hw : walkPages stop call n next st' with
            | none => simp [hw] at h
            | some rest =>
                cases rest with
                | error e => simp [hw] at h
                | ok rest =>
                    simp only [hw] at h
                    exact .inr ⟨hn, rest, (Except.ok.inj (Option.some.inj h)).symm, rfl⟩

/-- A walk whose calls answer as another's from the second on: the pages after the first agree. -/
theorem walkPages_congr {stop : τ} {call call' : τ → σ → Option (Except ε (List α × τ × σ))}
    (h : ∀ tok st answer, tok ≠ stop → call tok st = some (.ok answer) →
      call' tok st = some (.ok answer)) :
    ∀ (n : Nat) (tok : τ) (st : σ) (pages : List (List α)), tok ≠ stop →
      walkPages stop call n tok st = some (.ok pages) →
      walkPages stop call' n tok st = some (.ok pages) := by
  intro n
  induction n with
  | zero =>
      intro tok st pages _ hw
      cases hw
  | succ n ih =>
      intro tok st pages htok hw
      obtain ⟨items, next, st', hc, hrest⟩ := walkPages_ok hw
      rw [walkPages, h tok st _ htok hc]
      simp only
      rcases hrest with ⟨rfl, rfl⟩ | ⟨hne, rest, rfl, hw'⟩
      · rw [if_pos rfl]
      · rw [if_neg hne, ih next st' rest hne hw']

/-- **A walk that differs in its first answer only.** -/
theorem walkPages_modifyHead {stop : τ}
    {call call' : τ → σ → Option (Except ε (List α × τ × σ))} {f : List α → List α}
    (hfirst : ∀ st items next st', call stop st = some (.ok (items, next, st')) →
      call' stop st = some (.ok (f items, next, st')))
    (h : ∀ tok st answer, tok ≠ stop → call tok st = some (.ok answer) →
      call' tok st = some (.ok answer)) {n : Nat} {st : σ} {pages : List (List α)}
    (hw : walkPages stop call n stop st = some (.ok pages)) :
    walkPages stop call' n stop st = some (.ok (pages.modifyHead f)) := by
  cases n with
  | zero => cases hw
  | succ n =>
      obtain ⟨items, next, st', hc, hrest⟩ := walkPages_ok hw
      rw [walkPages, hfirst st _ _ _ hc]
      simp only
      rcases hrest with ⟨rfl, rfl⟩ | ⟨hne, rest, rfl, hw'⟩
      · rw [if_pos rfl]
        rfl
      · rw [if_neg hne, walkPages_congr h n next st' rest hne hw']
        rfl

/-- A call goes at least one page on, and its items are as `Q` says. -/
structure Advances (stop : τ) (read : τ → Except ε (List κ × τ)) (Q : α → Prop)
    (pages : List (List κ)) (answer : Option (Except ε (List α × τ × σ))) : Prop where
  exists_split : ∃ used rest items next st', pages = used ++ rest ∧ used ≠ [] ∧
    answer = some (.ok (items, next, st')) ∧ (∀ a ∈ items, Q a) ∧
    ((next = stop ∧ rest = []) ∨ (next ≠ stop ∧ Pages stop read next rest))

/-- **A walk over calls that go on ends.** -/
theorem walkPages_ends {stop : τ} {read : τ → Except ε (List κ × τ)} {Q : α → Prop}
    {call : τ → σ → Option (Except ε (List α × τ × σ))} {m : Nat}
    (hcall : ∀ tok pages st, Pages stop read tok pages → pages.length ≤ m →
      Advances stop read Q pages (call tok st)) :
    ∀ (n : Nat) (tok : τ) (pages : List (List κ)) (st : σ), Pages stop read tok pages →
      pages.length ≤ m → pages.length ≤ n →
      ∃ answers, walkPages stop call n tok st = some (.ok answers) ∧
        ∀ answer ∈ answers, ∀ a ∈ answer, Q a := by
  intro n
  induction n with
  | zero =>
      intro tok pages st hp _ hn
      cases hp <;> exact absurd hn (by simp)
  | succ n ih =>
      intro tok pages st hp hm hn
      obtain ⟨used, rest, items, next, st', rfl, hne, hans, hQ, hrest⟩ :=
        (hcall tok pages st hp hm).exists_split
      have hlen := List.length_pos_iff.mpr hne
      rw [List.length_append] at hn hm
      rw [walkPages, hans]
      simp only
      rcases hrest with ⟨rfl, rfl⟩ | ⟨hnext, hrest⟩
      · exact ⟨[items], by rw [if_pos rfl], by simpa using hQ⟩
      · obtain ⟨answers, hw, hall⟩ := ih next rest st' hrest (by omega) (by omega)
        refine ⟨items :: answers, by rw [if_neg hnext, hw], ?_⟩
        exact List.forall_mem_cons.mpr ⟨hQ, hall⟩

/-- A call takes some whole pages and answers with a page of its own: `f` of its rows is what `F`
    makes of the keys, and `Q` holds of it. -/
structure Takes {β : Type} (stop : τ) (read : τ → Except ε (List κ × τ)) (F : List κ → List β)
    (f : List α → List β) (Q : List α → Prop) (Inv : σ → Prop) (pages : List (List κ))
    (answer : Option (Except ε (List α × τ × σ))) : Prop where
  exists_split : ∃ used rest items next st', pages = used ++ rest ∧ used ≠ [] ∧
    answer = some (.ok (items, next, st')) ∧ (f items).Perm (F used.flatten) ∧ Q items ∧ Inv st' ∧
    ((next = stop ∧ rest = []) ∨ (next ≠ stop ∧ Pages stop read next rest))

/-- **A walk over calls that take whole pages has everything once, page by page.** -/
theorem walkPages_perm {β : Type} {stop : τ} {read : τ → Except ε (List κ × τ)}
    {F : List κ → List β} (hF : ∀ a b, F (a ++ b) = F a ++ F b) {f : List α → List β}
    (hf : ∀ a b, f (a ++ b) = f a ++ f b) {Q : List α → Prop} {Inv : σ → Prop}
    {P : List (List κ) → Prop} (hP : ∀ a b, P (a ++ b) → P b)
    {call : τ → σ → Option (Except ε (List α × τ × σ))} {m : Nat}
    (hcall : ∀ tok pages st, Pages stop read tok pages → pages.length ≤ m → P pages → Inv st →
      Takes stop read F f Q Inv pages (call tok st)) :
    ∀ (n : Nat) (tok : τ) (pages : List (List κ)) (st : σ), Pages stop read tok pages →
      pages.length ≤ m → pages.length ≤ n → P pages → Inv st →
      ∃ answers, walkPages stop call n tok st = some (.ok answers) ∧
        (f answers.flatten).Perm (F pages.flatten) ∧ ∀ answer ∈ answers, Q answer := by
  intro n
  induction n with
  | zero =>
      intro tok pages st hp _ hn
      cases hp <;> exact absurd hn (by simp)
  | succ n ih =>
      intro tok pages st hp hm hn hprop hinv
      obtain ⟨used, rest, items, next, st', rfl, hne, hans, hperm, hQ, hinv', hrest⟩ :=
        (hcall tok pages st hp hm hprop hinv).exists_split
      have hlen := List.length_pos_iff.mpr hne
      rw [List.length_append] at hn hm
      rw [walkPages, hans]
      simp only
      rcases hrest with ⟨rfl, rfl⟩ | ⟨hnext, hrest⟩
      · exact ⟨[items], by rw [if_pos rfl], by simpa using hperm, by simpa using hQ⟩
      · obtain ⟨answers, hw, hrows, hall⟩ :=
          ih next rest st' hrest (by omega) (by omega) (hP used rest hprop) hinv'
        refine ⟨items :: answers, by rw [if_neg hnext, hw], ?_,
          List.forall_mem_cons.mpr ⟨hQ, hall⟩⟩
        rw [List.flatten_cons, hf, List.flatten_append, hF]
        exact hperm.append hrows

/-- **A walk whose calls take one page each** answers page for page. -/
theorem walkPages_each {stop : τ} {read : τ → Except ε (List κ × τ)} {P : List κ → Prop}
    {R : List α → List κ → Prop} {call : τ → σ → Option (Except ε (List α × τ × σ))}
    (hcall : ∀ tok ks next st, read tok = .ok (ks, next) → P ks →
      ∃ items st', call tok st = some (.ok (items, next, st')) ∧ R items ks) :
    ∀ (n : Nat) (tok : τ) (pages : List (List κ)) (st : σ), Pages stop read tok pages →
      (∀ ks ∈ pages, P ks) → pages.length ≤ n →
      ∃ answers, walkPages stop call n tok st = some (.ok answers) ∧
        List.Forall₂ R answers pages := by
  intro n
  induction n with
  | zero =>
      intro tok pages st hp _ hn
      cases hp <;> exact absurd hn (by simp)
  | succ n ih =>
      intro tok pages st hp hP hn
      cases hp with
      | @last _ ks hread =>
          obtain ⟨items, st', hc, hR⟩ := hcall tok ks stop st hread (hP ks List.mem_cons_self)
          refine ⟨[items], ?_, .cons hR .nil⟩
          rw [walkPages, hc]
          exact if_pos rfl
      | @more _ next ks rest hread hne hrest =>
          obtain ⟨hPk, hP⟩ := List.forall_mem_cons.mp hP
          obtain ⟨items, st', hc, hR⟩ := hcall tok ks next st hread hPk
          obtain ⟨answers, hw, hall⟩ := ih next rest st' hrest hP (by simpa using hn)
          refine ⟨items :: answers, ?_, .cons hR hall⟩
          rw [walkPages, hc]
          simp only [if_neg hne, hw]

end DevDashboard.Lib.Paging
