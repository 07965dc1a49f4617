/-
  File:      DevDashboard/Lib/Frames.lean
  Subject:   GROUPS OF ITEMS IN ONE STREAM: every item ends with a terminator, and a separator
             stands between two groups.

  The terminator is in no item, but an item may begin with the separator. So the stream can be
  cut in more than one way; where one of the cuts has no such item, no other cut has as many
  groups.

  * `frame_inj` -- the groups are read back from the stream.
-/
import DevDashboard.Lib.Str

namespace DevDashboard.Lib.Frames

variable {α : Type} {t s : α}

/-- The items of a group, each with its terminator. -/
def group (t : α) (g : List (List α)) : List α := g.flatMap fun x => x ++ [t]

/-- The groups, a separator between two of them. -/
def frame (t s : α) : List (List (List α)) → List α
  | [] => []
  | [g] => group t g
  | g :: g' :: gs => group t g ++ s :: frame t s (g' :: gs)

/-- No item holds the terminator. -/
def Terminated (t : α) (gs : List (List (List α))) : Prop := ∀ g ∈ gs, ∀ x ∈ g, t ∉ x

/-- No item begins with the separator. -/
def Separated (s : α) (gs : List (List (List α))) : Prop := ∀ g ∈ gs, ∀ x ∈ g, x.head? ≠ some s

theorem frame_cons_item (x : List α) (g : List (List α)) (gs : List (List (List α))) :
    frame t s ((x :: g) :: gs) = x ++ t :: frame t s (g :: gs) := by
  cases gs <;> simp [frame, group]

theorem frame_nil_cons {gs : List (List (List α))} (h : gs ≠ []) :
    frame t s ([] :: gs) = s :: frame t s gs := by
  cases gs with
  | nil => exact absurd rfl h
  | cons g gs => simp [frame, group]

theorem Terminated.tail {x : List α} {g : List (List α)} {gs : List (List (List α))}
    (h : Terminated t ((x :: g) :: gs)) : t ∉ x ∧ Terminated t (g :: gs) := by
  obtain ⟨hg, hgs⟩ := List.forall_mem_cons.mp h
  obtain ⟨hx, hg⟩ := List.forall_mem_cons.mp hg
  exact ⟨hx, List.forall_mem_cons.mpr ⟨hg, hgs⟩⟩

theorem Separated.tail {x : List α} {g : List (List α)} {gs : List (List (List α))}
    (h : Separated s ((x :: g) :: gs)) : x.head? ≠ some s ∧ Separated s (g :: gs) := by
  obtain ⟨hg, hgs⟩ := List.forall_mem_cons.mp h
  obtain ⟨hx, hg⟩ := List.forall_mem_cons.mp hg
  exact ⟨hx, List.forall_mem_cons.mpr ⟨hg, hgs⟩⟩

/-- **Another cut of the stream has no more groups, and if it has as many it is the same.** The
    induction is on the length of the stream: where the other cut takes a separator for the
    beginning of an item, it falls behind by one group. -/
theorem frame_cut (hst : s ≠ t) {n : Nat} {gs hs : List (List (List α))}
    (hn : (frame t s gs).length = n) (hgs : gs ≠ []) (hhs : hs ≠ []) (hgt : Terminated t gs)
    (hgp : Separated s gs) (hht : Terminated t hs) (heq : frame t s gs = frame t s hs) :
    hs.length ≤ gs.length ∧ (hs.length = gs.length → gs = hs) := by
  induction n using Nat.strong_induction_on generalizing gs hs with
  | _ n ih =>
      obtain ⟨g, gs, rfl⟩ := List.exists_cons_of_ne_nil hgs
      obtain ⟨h, hs, rfl⟩ := List.exists_cons_of_ne_nil hhs
      cases g with
      | nil =>
          by_cases hgs' : gs = []
          · subst hgs'
            cases h with
            | nil =>
                by_cases hhs' : hs = []
                · subst hhs'
                  exact ⟨Nat.le_refl _, fun _ => rfl⟩
                · rw [frame_nil_cons hhs'] at heq
                  cases heq
            | cons y h =>
                rw [frame_cons_item] at heq
                exact absurd heq.symm (by simp [frame, group])
          · rw [frame_nil_cons hgs'] at heq hn
            have hgt' : Terminated t gs := fun g' hg' => hgt g' (List.mem_cons_of_mem _ hg')
            have hgp' : Separated s gs := fun g' hg' => hgp g' (List.mem_cons_of_mem _ hg')
            have hlt : (frame t s gs).length < n := by
              rw [List.length_cons] at hn
              omega
            cases h with
            | nil =>
                by_cases hhs' : hs = []
                · subst hhs'
                  cases heq
                · rw [frame_nil_cons hhs'] at heq
                  have hht' : Terminated t hs := fun h' hh' => hht h' (List.mem_cons_of_mem _ hh')
                  obtain ⟨hle, hsame⟩ :=
                    ih _ hlt rfl hgs' hhs' hgt' hgp' hht' (List.cons.inj heq).2
                  rw [List.length_cons, List.length_cons]
                  exact ⟨by omega, fun hl => by rw [hsame (by omega)]⟩
            | cons y h =>
                rw [frame_cons_item] at heq
                obtain ⟨hy, hht'⟩ := hht.tail
                cases y with
                | nil => exact absurd (List.cons.inj heq).1 hst
                | cons c y =>
                    -- the other cut goes on inside an item that begins with the separator
                    have htail : frame t s gs = frame t s ((y :: h) :: hs) := by
                      rw [frame_cons_item]
                      exact (List.cons.inj heq).2
                    have hterm : Terminated t ((y :: h) :: hs) := by
                      obtain ⟨hh, hhs'⟩ := List.forall_mem_cons.mp hht'
                      refine List.forall_mem_cons.mpr ⟨List.forall_mem_cons.mpr ⟨?_, hh⟩, hhs'⟩
                      exact fun hm => hy (List.mem_cons_of_mem c hm)
                    obtain ⟨hle, -⟩ := ih _ hlt rfl hgs' (by simp) hgt' hgp' hterm htail
                    simp only [List.length_cons] at hle ⊢
                    exact ⟨by omega, fun hl => by omega⟩
      | cons x g =>
          rw [frame_cons_item] at heq hn
          obtain ⟨hx, hgt'⟩ := hgt.tail
          obtain ⟨hxs, hgp'⟩ := hgp.tail
          cases h with
          | nil =>
              by_cases hhs' : hs = []
              · subst hhs'
                exact absurd heq (by simp [frame, group])
              · rw [frame_nil_cons hhs'] at heq
                cases x with
                | nil => exact absurd (List.cons.inj heq).1.symm hst
                | cons c x =>
                    rw [(List.cons.inj heq).1] at hxs
                    exact absurd rfl hxs
          | cons y h =>
              rw [frame_cons_item] at heq
              obtain ⟨hy, hht'⟩ := hht.tail
              obtain ⟨rfl, htail⟩ := Str.append_cons_inj hx hy heq
              have hlt : (frame t s (g :: gs)).length < n := by
                rw [List.length_append, List.length_cons] at hn
                omega
              obtain ⟨hle, hsame⟩ := ih _ hlt rfl (by simp) (by simp) hgt' hgp' hht' htail
              rw [List.length_cons, List.length_cons] at hle hsame ⊢
              refine ⟨hle, fun hl => ?_⟩
              obtain ⟨rfl, rfl⟩ := List.cons.inj (hsame hl)
              rfl

/-- **The groups are read back from the stream.** -/
theorem frame_inj (hst : s ≠ t) {gs hs : List (List (List α))} (hgt : Terminated t gs)
    (hgp : Separated s gs) (hht : Terminated t hs) (hlen : hs.length = gs.length)
    (heq : frame t s gs = frame t s hs) : gs = hs := by
  by_cases hnil : gs = []
  · rw [hnil, List.length_nil, List.length_eq_zero_iff] at hlen
    rw [hnil, hlen]
  · have hhs : hs ≠ [] := by
      rintro rfl
      exact hnil (List.length_eq_zero_iff.mp hlen.symm)
    exact (frame_cut hst rfl hnil hhs hgt hgp hht heq).2 hlen

end DevDashboard.Lib.Frames
