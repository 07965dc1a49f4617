/-
  File:      DevDashboard/Lib/Path.lean
  Subject:   FILE PATHS, with the functions of Go's `path/filepath` that the program uses, for a
             system whose separator is `/`.

  An absolute path is its list of segments (`segs`): a cleaned one is written from them
  (`render`), and its own segments are these again.

  * `segs_render` -- a list of proper segments is read back;
  * `clean_of_isAbs` -- cleaning an absolute path writes its segments;
  * `clean_abs` -- what `Abs` returns is clean;
  * `inside_rel_iff` -- `Rel` stays inside exactly where the segments of the base come first;
  * `segs_abs_join` -- a name under a directory is one segment more;
  * `lastElem_abs` -- a proper last element stays the last one in the absolute form.
-/
import DevDashboard.Lib.Str
import Mathlib.Data.List.TakeWhile

namespace DevDashboard.Lib.Path

/-! ## 1. Cleaning -/

def dotdot : Str := ['.', '.']

/-- `filepath.IsAbs`. -/
def isAbs (p : Str) : Bool := Str.hasPrefix p ['/']

/-- One element of a path, put on the elements before it (the last one on top). -/
def push (rooted : Bool) (stack : List Str) (seg : Str) : List Str :=
  if seg = [] ∨ seg = ['.'] then stack
  else if seg = dotdot then
    match stack with
    | [] => if rooted then [] else [seg]
    | top :: rest => if top = dotdot then seg :: top :: rest else rest
  else seg :: stack

/-- The elements that are left of a path. -/
def resolve (rooted : Bool) (elems : List Str) : List Str :=
  (elems.foldl (push rooted) []).reverse

/-- `filepath.Clean`. -/
def clean (p : Str) : Str :=
  let left := resolve (isAbs p) (p.splitOn '/')
  if isAbs p then '/' :: ['/'].intercalate left
  else if left = [] then ['.']
  else ['/'].intercalate left

/-- The segments of an absolute path. -/
def segs (p : Str) : List Str := resolve true (p.splitOn '/')

/-- The clean path with these segments. -/
def render (l : List Str) : Str := '/' :: ['/'].intercalate l

/-- A segment that stays in a cleaned absolute path. -/
structure Proper (seg : Str) : Prop where
  ne_nil : seg ≠ []
  ne_dot : seg ≠ ['.']
  ne_dotdot : seg ≠ dotdot
  slash : '/' ∉ seg

theorem push_of_proper {seg : Str} (h : Proper seg) (rooted : Bool) (stack : List Str) :
    push rooted stack seg = seg :: stack := by
  unfold push
  rw [if_neg (by simp [h.ne_nil, h.ne_dot]), if_neg h.ne_dotdot]

theorem foldl_push_of_proper {elems : List Str} (h : ∀ e ∈ elems, Proper e) (rooted : Bool)
    (stack : List Str) : elems.foldl (push rooted) stack = elems.reverse ++ stack := by
  induction elems generalizing stack with
  | nil => rfl
  | cons e elems ih =>
      obtain ⟨he, h⟩ := List.forall_mem_cons.mp h
      rw [List.foldl_cons, push_of_proper he, ih h]
      simp

theorem resolve_of_proper {elems : List Str} (h : ∀ e ∈ elems, Proper e) (rooted : Bool) :
    resolve rooted elems = elems := by
  unfold resolve
  rw [foldl_push_of_proper h]
  simp

/-- The stack of a rooted path holds proper segments only. -/
theorem proper_push {stack : List Str} (hs : ∀ e ∈ stack, Proper e) {seg : Str} (h : '/' ∉ seg) :
    ∀ e ∈ push true stack seg, Proper e := by
  unfold push
  by_cases h1 : seg = [] ∨ seg = ['.']
  · rw [if_pos h1]
    exact hs
  · rw [if_neg h1]
    by_cases h2 : seg = dotdot
    · rw [if_pos h2]
      cases stack with
      | nil => simp
      | cons top rest =>
          obtain ⟨htop, hrest⟩ := List.forall_mem_cons.mp hs
          simpa [htop.ne_dotdot] using hrest
    · rw [if_neg h2]
      rw [not_or] at h1
      exact List.forall_mem_cons.mpr ⟨⟨h1.1, h1.2, h2, h⟩, hs⟩

theorem proper_foldl_push {elems : List Str} (h : ∀ e ∈ elems, '/' ∉ e) {stack : List Str}
    (hs : ∀ e ∈ stack, Proper e) : ∀ e ∈ elems.foldl (push true) stack, Proper e := by
  induction elems generalizing stack with
  | nil => exact hs
  | cons e elems ih =>
      obtain ⟨he, h⟩ := List.forall_mem_cons.mp h
      exact ih h (proper_push hs he)

/-! ## 2. Splitting at the separator -/

theorem not_mem_of_mem_splitOn {α : Type} [BEq α] [LawfulBEq α] {c : α} {e p : List α}
    (h : e ∈ p.splitOn c) : c ∉ e := by
  induction p generalizing e with
  | nil =>
      rw [List.splitOn_nil, List.mem_singleton] at h
      rw [h]
      exact List.not_mem_nil
  | cons d p ih =>
      rw [List.splitOn_cons_eq_if_modifyHead] at h
      split at h
      · rcases List.mem_cons.mp h with rfl | h
        · exact List.not_mem_nil
        · exact ih h
      · rename_i hd
        cases hsp : p.splitOn c with
        | nil => exact absurd hsp (List.splitOn_ne_nil c p)
        | cons x xs =>
            rw [hsp] at h ih
            rcases List.mem_cons.mp h with rfl | h
            · intro hm
              rcases List.mem_cons.mp hm with rfl | hm
              · simp at hd
              · exact ih List.mem_cons_self hm
            · exact ih (List.mem_cons_of_mem _ h)

theorem proper_segs (p : Str) : ∀ e ∈ segs p, Proper e := by
  intro e he
  rw [segs, resolve, List.mem_reverse] at he
  exact proper_foldl_push (fun _ h => not_mem_of_mem_splitOn h) (by simp) e he

/-- **A list of proper segments is read back.** -/
theorem segs_render {l : List Str} (h : ∀ e ∈ l, Proper e) : segs (render l) = l := by
  have hsplit : (render l).splitOn '/' = [] :: (['/'].intercalate l).splitOn '/' := by
    have := List.splitOn_append_cons_self (a := '/') ([] : Str) (['/'].intercalate l)
    simpa [render] using this
  unfold segs resolve
  rw [hsplit, List.foldl_cons, show push true [] [] = [] from rfl]
  by_cases hl : l = []
  · subst hl
    rfl
  · rw [List.splitOn_intercalate '/' (fun e he => (h e he).slash) hl]
    exact resolve_of_proper h true

theorem clean_of_isAbs {p : Str} (h : isAbs p = true) : clean p = render (segs p) := by
  unfold clean
  rw [if_pos h, h]
  rfl

theorem isAbs_clean {p : Str} (h : isAbs p = true) : isAbs (clean p) = true := by
  rw [clean_of_isAbs h]
  rfl

theorem segs_clean {p : Str} (h : isAbs p = true) : segs (clean p) = segs p := by
  rw [clean_of_isAbs h, segs_render (proper_segs p)]

theorem clean_clean {p : Str} (h : isAbs p = true) : clean (clean p) = clean p := by
  rw [clean_of_isAbs (isAbs_clean h), segs_clean h, clean_of_isAbs h]

/-! ## 3. `Join`, `Abs` and `Rel` -/

/-- `filepath.Join` of a directory and a name, neither of them empty. -/
def join (dir name : Str) : Str := clean (dir ++ '/' :: name)

/-- `filepath.Abs`, in the working directory `cwd`. -/
def abs (cwd p : Str) : Str := if isAbs p then clean p else join cwd p

/-- What is left of two lists behind their common beginning. -/
def stripCommon : List Str → List Str → List Str × List Str
  | x :: xs, y :: ys => if x = y then stripCommon xs ys else (x :: xs, y :: ys)
  | xs, ys => (xs, ys)

/-- `filepath.Rel` of two absolute paths: up from the base as far as need be, then down. -/
def rel (base target : Str) : Str :=
  if clean base = clean target then ['.']
  else
    let left := stripCommon (segs base) (segs target)
    ['/'].intercalate (List.replicate left.1.length dotdot ++ left.2)

/-- The test `rel != ".." && !strings.HasPrefix(rel, "../")`. -/
def inside (r : Str) : Bool := decide (r ≠ dotdot) && !Str.hasPrefix r (dotdot ++ ['/'])

theorem isAbs_append {p : Str} (h : isAbs p = true) (q : Str) : isAbs (p ++ q) = true :=
  Str.hasPrefix_iff.mpr ((Str.hasPrefix_iff.mp h).trans (List.prefix_append p q))

theorem isAbs_abs {cwd : Str} (h : isAbs cwd = true) (p : Str) : isAbs (abs cwd p) = true := by
  unfold abs
  split
  · rename_i hp
    exact isAbs_clean hp
  · exact isAbs_clean (isAbs_append h _)

theorem clean_abs {cwd : Str} (h : isAbs cwd = true) (p : Str) :
    clean (abs cwd p) = abs cwd p := by
  unfold abs
  split
  · rename_i hp
    exact clean_clean hp
  · exact clean_clean (isAbs_append h _)

theorem stripCommon_fst {xs ys : List Str} : (stripCommon xs ys).1 = [] ↔ xs <+: ys := by
  induction xs generalizing ys with
  | nil => simp [stripCommon]
  | cons x xs ih =>
      cases ys with
      | nil => simp [stripCommon]
      | cons y ys =>
          unfold stripCommon
          by_cases h : x = y
          · rw [if_pos h, ih, h, List.prefix_cons_inj]
          · rw [if_neg h]
            simp [List.cons_prefix_cons, h]

theorem stripCommon_snd_subset {xs ys : List Str} {e : Str} (h : e ∈ (stripCommon xs ys).2) :
    e ∈ ys := by
  induction xs generalizing ys with
  | nil => simpa [stripCommon] using h
  | cons x xs ih =>
      cases ys with
      | nil => simp [stripCommon] at h
      | cons y ys =>
          unfold stripCommon at h
          split at h
          · exact List.mem_cons_of_mem y (ih h)
          · exact h

/-- A path of proper segments does not go up. -/
theorem inside_intercalate {l : List Str} (h : ∀ e ∈ l, Proper e) :
    inside (['/'].intercalate l) = true := by
  cases l with
  | nil => rfl
  | cons e l =>
      obtain ⟨he, -⟩ := List.forall_mem_cons.mp h
      have hpre : ∀ r, ¬ dotdot ++ '/' :: r = ['/'].intercalate (e :: l) := by
        intro r hr
        have hsplit := List.splitOn_intercalate '/' (fun x hx => (h x hx).slash)
          (List.cons_ne_nil e l)
        rw [← hr, List.splitOn_append_cons_self, List.splitOn_eq_singleton (by decide)] at hsplit
        exact he.ne_dotdot (List.cons.inj hsplit).1.symm
      have hne : ['/'].intercalate (e :: l) ≠ dotdot := by
        intro hr
        have hsplit := List.splitOn_intercalate '/' (fun x hx => (h x hx).slash)
          (List.cons_ne_nil e l)
        rw [hr, List.splitOn_eq_singleton (by decide)] at hsplit
        exact he.ne_dotdot (List.cons.inj hsplit).1.symm
      unfold inside
      rw [Bool.and_eq_true, decide_eq_true_eq, Bool.not_eq_true', ← Bool.not_eq_true,
        Str.hasPrefix_iff]
      refine ⟨hne, ?_⟩
      rintro ⟨r, hr⟩
      rw [List.append_assoc] at hr
      exact hpre r hr

theorem not_inside_replicate {n : Nat} (l : List Str) :
    inside (['/'].intercalate (List.replicate (n + 1) dotdot ++ l)) = false := by
  rw [List.replicate_succ, List.cons_append]
  cases hl : List.replicate n dotdot ++ l with
  | nil => rfl
  | cons e l' =>
      rw [List.intercalate_cons_cons]
      have hp : Str.hasPrefix (dotdot ++ ['/'] ++ ['/'].intercalate (e :: l'))
          (dotdot ++ ['/']) = true := Str.hasPrefix_iff.mpr (List.prefix_append _ _)
      unfold inside
      rw [hp]
      simp

/-- **`Rel` stays inside exactly where the segments of the base come first.** -/
theorem inside_rel_iff {base target : Str} (hb : isAbs base = true) (ht : isAbs target = true) :
    inside (rel base target) = true ↔ segs base <+: segs target := by
  unfold rel
  by_cases heq : clean base = clean target
  · have hs : segs base = segs target := by rw [← segs_clean hb, heq, segs_clean ht]
    rw [if_pos heq, hs]
    exact iff_of_true rfl (List.prefix_refl _)
  · rw [if_neg heq, ← stripCommon_fst]
    cases hl : (stripCommon (segs base) (segs target)).1 with
    | nil =>
        refine iff_of_true ?_ rfl
        show inside (['/'].intercalate (List.replicate _ dotdot ++ _)) = true
        rw [hl]
        exact inside_intercalate fun e he => proper_segs target e (stripCommon_snd_subset he)
    | cons x xs =>
        refine iff_of_false ?_ (by simp)
        show ¬ inside (['/'].intercalate (List.replicate _ dotdot ++ _)) = true
        rw [hl, List.length_cons, not_inside_replicate]
        simp

/-! ## 4. A path and its absolute form -/

theorem push_dotdot_nil (rooted : Bool) :
    push rooted [] dotdot = if rooted then [] else [dotdot] := rfl

theorem push_dotdot_cons (rooted : Bool) (top : Str) (rest : List Str) :
    push rooted (top :: rest) dotdot = if top = dotdot then dotdot :: top :: rest else rest := rfl

/-- What holds of the elements and of the stack holds of the new stack. -/
theorem forall_mem_push {P : Str → Prop} {stack : List Str} (h : ∀ e ∈ stack, P e)
    (rooted : Bool) {e : Str} (he : e ≠ [] → e ≠ ['.'] → P e) : ∀ x ∈ push rooted stack e, P x := by
  by_cases h1 : e = [] ∨ e = ['.']
  · simpa only [push, if_pos h1] using h
  · have hPe : P e := he (fun h => h1 (.inl h)) (fun h => h1 (.inr h))
    have hcons : ∀ x ∈ e :: stack, P x := List.forall_mem_cons.mpr ⟨hPe, h⟩
    by_cases h2 : e = dotdot
    · rw [h2] at hcons ⊢
      cases stack with
      | nil =>
          rw [push_dotdot_nil]
          cases rooted with
          | true => simp
          | false => exact hcons
      | cons top rest =>
          rw [push_dotdot_cons]
          split
          · exact hcons
          · exact (List.forall_mem_cons.mp h).2
    · simpa only [push, if_neg h1, if_neg h2] using hcons

theorem forall_mem_foldl_push {P : Str → Prop} {elems stack : List Str} (h : ∀ e ∈ stack, P e)
    (rooted : Bool) (he : ∀ e ∈ elems, e ≠ [] → e ≠ ['.'] → P e) :
    ∀ x ∈ elems.foldl (push rooted) stack, P x := by
  induction elems generalizing stack with
  | nil => exact h
  | cons e elems ih =>
      obtain ⟨hhead, htail⟩ := List.forall_mem_cons.mp he
      exact ih (forall_mem_push h rooted hhead) htail

/-- One element more, on the cleaned path and on the way it leads. -/
theorem foldl_push_reverse {stack : List Str} (S : List Str)
    (h : ∀ e ∈ stack, e ≠ [] ∧ e ≠ ['.']) (e : Str) :
    (push false stack e).reverse.foldl (push true) S =
      push true (stack.reverse.foldl (push true) S) e := by
  have hcons : (e :: stack).reverse.foldl (push true) S =
      push true (stack.reverse.foldl (push true) S) e := by
    rw [List.reverse_cons, List.foldl_append]
    rfl
  by_cases h1 : e = [] ∨ e = ['.']
  · simp only [push, if_pos h1]
  · by_cases h2 : e = dotdot
    · rw [h2] at hcons ⊢
      cases stack with
      | nil => exact hcons
      | cons top rest =>
          obtain ⟨htop, -⟩ := List.forall_mem_cons.mp h
          rw [push_dotdot_cons]
          by_cases h3 : top = dotdot
          · rw [if_pos h3]
            exact hcons
          · -- going down into `top` and up again is where we were
            have hdown : push true (rest.reverse.foldl (push true) S) top =
                top :: rest.reverse.foldl (push true) S := by
              simp [push, htop.1, htop.2, h3]
            rw [if_neg h3, List.reverse_cons, List.foldl_append, List.foldl_cons, List.foldl_nil,
              hdown, push_dotdot_cons, if_neg h3]
    · simpa only [push, if_neg h1, if_neg h2] using hcons

theorem foldl_push_foldl {elems stack : List Str} (h : ∀ e ∈ stack, e ≠ [] ∧ e ≠ ['.'])
    (S : List Str) : (elems.foldl (push false) stack).reverse.foldl (push true) S =
      elems.foldl (push true) (stack.reverse.foldl (push true) S) := by
  induction elems generalizing stack with
  | nil => rfl
  | cons e elems ih =>
      have h' := forall_mem_push h false fun h1 h2 => (⟨h1, h2⟩ : e ≠ [] ∧ e ≠ ['.'])
      rw [List.foldl_cons, ih h', foldl_push_reverse S h e, List.foldl_cons]

/-- **A relative path leads to the same place whether or not it is cleaned first.** -/
theorem foldl_push_resolve (elems S : List Str) :
    (resolve false elems).foldl (push true) S = elems.foldl (push true) S :=
  foldl_push_foldl (by simp) S

/-- The segments of a path taken from a directory. -/
theorem segs_append (dir p : Str) : segs (dir ++ '/' :: p) =
    ((p.splitOn '/').foldl (push true) (segs dir).reverse).reverse := by
  unfold segs resolve
  rw [List.splitOn_append_cons_self, List.foldl_append, List.reverse_reverse]

theorem segs_abs_of_isAbs {p : Str} (cwd : Str) (h : isAbs p = true) :
    segs (abs cwd p) = segs p := by
  unfold abs
  rw [if_pos h, segs_clean h]

theorem segs_abs_of_not {cwd p : Str} (hc : isAbs cwd = true) (h : isAbs p = false) :
    segs (abs cwd p) = ((p.splitOn '/').foldl (push true) (segs cwd).reverse).reverse := by
  unfold abs join
  rw [if_neg (by simp [h]), segs_clean (isAbs_append hc _), segs_append]

theorem splitOn_of_proper {n : Str} (h : Proper n) : n.splitOn '/' = [n] :=
  List.splitOn_eq_singleton h.slash

theorem segs_append_of_proper {n : Str} (dir : Str) (h : Proper n) :
    segs (dir ++ '/' :: n) = segs dir ++ [n] := by
  rw [segs_append, splitOn_of_proper h, List.foldl_cons, List.foldl_nil, push_of_proper h]
  simp

theorem isAbs_cons (c : Char) (p : Str) : isAbs (c :: p) = decide (c = '/') := by
  by_cases h : c = '/'
  · simp [isAbs, h]
  · simp [isAbs, Str.hasPrefix, List.isPrefixOf, h, Ne.symm h]

theorem not_isAbs_intercalate {l : List Str} (h : ∀ e ∈ l, e ≠ [] ∧ '/' ∉ e) :
    isAbs (['/'].intercalate l) = false := by
  cases l with
  | nil => rfl
  | cons e l =>
      obtain ⟨⟨hne, hs⟩, -⟩ := List.forall_mem_cons.mp h
      cases e with
      | nil => exact absurd rfl hne
      | cons c e =>
          have hc : c ≠ '/' := fun hc => hs (hc ▸ List.mem_cons_self)
          cases l with
          | nil => simp [isAbs_cons, hc]
          | cons x l => simp [isAbs_cons, List.intercalate_cons_cons, hc]

/-- **A name under a directory is one segment more**, for a relative directory too. -/
theorem segs_abs_join {cwd p n : Str} (hc : isAbs cwd = true) (hp : p ≠ []) (hn : Proper n) :
    segs (abs cwd (join p n)) = segs (abs cwd p) ++ [n] := by
  cases ha : isAbs p with
  | true =>
      have haj : isAbs (p ++ '/' :: n) = true := isAbs_append ha _
      rw [segs_abs_of_isAbs cwd ha, join, segs_abs_of_isAbs cwd (isAbs_clean haj), segs_clean haj,
        segs_append_of_proper p hn]
  | false =>
      have haj : isAbs (p ++ '/' :: n) = false := by
        cases p with
        | nil => exact absurd rfl hp
        | cons c p => rwa [List.cons_append, isAbs_cons, ← isAbs_cons c p]
      have hsplit : (p ++ '/' :: n).splitOn '/' = p.splitOn '/' ++ [n] := by
        rw [List.splitOn_append_cons_self, splitOn_of_proper hn]
      have hleft : resolve false ((p ++ '/' :: n).splitOn '/') =
          resolve false (p.splitOn '/') ++ [n] := by
        unfold resolve
        rw [hsplit, List.foldl_append, List.foldl_cons, List.foldl_nil, push_of_proper hn]
        simp
      have hslash : ∀ e ∈ resolve false ((p ++ '/' :: n).splitOn '/'), e ≠ [] ∧ '/' ∉ e := by
        intro e he
        rw [resolve, List.mem_reverse] at he
        exact @forall_mem_foldl_push (fun x => x ≠ [] ∧ '/' ∉ x) _ [] (by simp) false
          (fun _ h hne _ => ⟨hne, not_mem_of_mem_splitOn h⟩) e he
      have hne : resolve false ((p ++ '/' :: n).splitOn '/') ≠ [] := by
        rw [hleft]
        simp
      have hjoin : join p n = ['/'].intercalate (resolve false ((p ++ '/' :: n).splitOn '/')) := by
        unfold join clean
        simp only [haj, Bool.false_eq_true, if_false, hne]
      have hrel : isAbs (join p n) = false := by
        rw [hjoin]
        exact not_isAbs_intercalate hslash
      rw [segs_abs_of_not hc hrel, segs_abs_of_not hc ha, hjoin,
        List.splitOn_intercalate '/' (fun e he => (hslash e he).2) hne, foldl_push_resolve, hsplit,
        List.foldl_append, List.foldl_cons, List.foldl_nil, push_of_proper hn]
      simp

theorem abs_eq_render {cwd : Str} (hc : isAbs cwd = true) (p : Str) :
    abs cwd p = render (segs (abs cwd p)) := by
  rw [← clean_of_isAbs (isAbs_abs hc p), clean_abs hc p]

/-- Clean absolute paths of the same segments are equal. -/
theorem eq_of_segs {p q : Str} (hp : isAbs p = true) (hcp : clean p = p) (hq : isAbs q = true)
    (hcq : clean q = q) (h : segs p = segs q) : p = q := by
  rw [← hcp, ← hcq, clean_of_isAbs hp, clean_of_isAbs hq, h]

/-! ## 5. The last element of a path -/

/-- What follows the last separator. -/
def lastElem (p : Str) : Str := (p.reverse.takeWhile (· ≠ '/')).reverse

/-- `filepath.Ext`. -/
def extOf (p : Str) : Str :=
  let e := (lastElem p).reverse
  if '.' ∈ e then '.' :: (e.takeWhile (· ≠ '.')).reverse else []

theorem lastElem_append {u x : Str} (h : '/' ∉ x) : lastElem (u ++ '/' :: x) = x := by
  unfold lastElem
  have hx : ∀ c ∈ x.reverse, decide (c ≠ '/') = true := by
    intro c hc
    simpa using fun he : c = '/' => h (he ▸ List.mem_reverse.mp hc)
  rw [List.reverse_append, List.reverse_cons, List.append_assoc, List.singleton_append,
    List.takeWhile_append_of_pos hx, List.takeWhile_cons_of_neg (by simp)]
  simp

theorem slash_lastElem (p : Str) : '/' ∉ lastElem p := by
  unfold lastElem
  rw [List.mem_reverse]
  intro h
  simpa using List.mem_takeWhile_imp h

theorem exists_splitOn_lastElem (p : Str) : ∃ pre, p.splitOn '/' = pre ++ [lastElem p] := by
  have hsplit : p = (p.reverse.dropWhile (· ≠ '/')).reverse ++ lastElem p := by
    unfold lastElem
    rw [← List.reverse_append, List.takeWhile_append_dropWhile, List.reverse_reverse]
  cases hd : p.reverse.dropWhile (· ≠ '/') with
  | nil =>
      rw [hd] at hsplit
      refine ⟨[], ?_⟩
      rw [List.nil_append]
      nth_rewrite 1 [hsplit]
      exact List.splitOn_eq_singleton (slash_lastElem p)
  | cons c u =>
      have hc : c = '/' := by
        have hh := List.head?_dropWhile_not (fun c => decide (c ≠ '/')) p.reverse
        rw [hd] at hh
        simpa using hh
      rw [hd, hc, List.reverse_cons, List.append_assoc, List.singleton_append] at hsplit
      refine ⟨u.reverse.splitOn '/', ?_⟩
      nth_rewrite 1 [hsplit]
      rw [List.splitOn_append_cons_self, List.splitOn_eq_singleton (slash_lastElem p)]

theorem exists_render_append (l : List Str) (x : Str) : ∃ u, render (l ++ [x]) = u ++ '/' :: x := by
  induction l with
  | nil => exact ⟨[], by simp [render]⟩
  | cons e l ih =>
      obtain ⟨u, hu⟩ := ih
      refine ⟨'/' :: e ++ u, ?_⟩
      have hcons : render (e :: (l ++ [x])) = '/' :: e ++ render (l ++ [x]) := by
        unfold render
        cases hl : l ++ [x] with
        | nil => simp at hl
        | cons y ys =>
            rw [List.intercalate_cons_cons]
            simp
      rw [List.cons_append, hcons, hu, List.append_assoc]

/-- **A proper last element stays the last one in the absolute form.** -/
theorem lastElem_abs {cwd p : Str} (hc : isAbs cwd = true) (h : Proper (lastElem p)) :
    lastElem (abs cwd p) = lastElem p := by
  obtain ⟨pre, hpre⟩ := exists_splitOn_lastElem p
  have hlast : ∃ l, segs (abs cwd p) = l ++ [lastElem p] := by
    cases ha : isAbs p with
    | true =>
        refine ⟨(pre.foldl (push true) []).reverse, ?_⟩
        rw [segs_abs_of_isAbs cwd ha, segs, resolve, hpre, List.foldl_append, List.foldl_cons,
          List.foldl_nil, push_of_proper h, List.reverse_cons]
    | false =>
        refine ⟨(pre.foldl (push true) (segs cwd).reverse).reverse, ?_⟩
        rw [segs_abs_of_not hc ha, hpre, List.foldl_append, List.foldl_cons, List.foldl_nil,
          push_of_proper h, List.reverse_cons]
  obtain ⟨l, hl⟩ := hlast
  obtain ⟨u, hu⟩ := exists_render_append l (lastElem p)
  rw [abs_eq_render hc p, hl, hu, lastElem_append h.slash]

end DevDashboard.Lib.Path
