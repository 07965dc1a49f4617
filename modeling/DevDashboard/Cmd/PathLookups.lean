/-
  File:      DevDashboard/Cmd/PathLookups.lean
  Subject:   WHOSE PATH IT IS (`TranslateMountPath` of `pkg/discovery/compose_inspect.go`,
             `ProjectForPath` of `pkg/discovery/scan_compose.go`).

  Both go through a Go map and return at the first entry that fits. Mounts and directories nest,
  so several may fit, and the range comes upon them in an order of its own.

  * `firstHit_iff` -- the first hit is the most specific one in every order exactly if all the
    hits agree;
  * `throughMount_eq_some_iff`, `holds_iff` -- which entries fit, and where they lead;
  * `pathLookups_iff` -- when both lookups pick the most specific owner.
-/
import DevDashboard.Cmd.Routes
import Mathlib.Data.Set.Finite.Lemmas

namespace DevDashboard.Cmd

open Lib Discovery

/-! ## 1. First hits -/

section FirstHit

variable {α β ι : Type} {f : α → Option β} {depth : α → Nat} {l : List α}

/-- A lookup finds something exactly if an entry fits, and it is what the deepest entry that fits
    leads to. -/
structure MostSpecific (f : α → Option β) (depth : α → Nat) (l : List α) (result : Option β) :
    Prop where
  found : result ≠ none ↔ ∃ x ∈ l, f x ≠ none
  deepest : ∀ x ∈ l, f x ≠ none → (∀ y ∈ l, f y ≠ none → depth y ≤ depth x) → result = f x

theorem exists_deepest (depth : α → Nat) (h : ∃ x ∈ l, f x ≠ none) :
    ∃ x ∈ l, f x ≠ none ∧ ∀ y ∈ l, f y ≠ none → depth y ≤ depth x := by
  have hfin : {x | x ∈ l ∧ f x ≠ none}.Finite :=
    l.finite_toSet.subset fun x hx => hx.1
  obtain ⟨x, hx, hmax⟩ := Set.exists_max_image _ depth hfin h
  exact ⟨x, hx.1, hx.2, fun y hy hfy => hmax y ⟨hy, hfy⟩⟩

theorem findSome?_ne_none_iff {l' : List α} (hp : l'.Perm l) :
    l'.findSome? f ≠ none ↔ ∃ x ∈ l, f x ≠ none := by
  rw [ne_eq, List.findSome?_eq_none_iff]
  simp only [hp.mem_iff, not_forall, exists_prop, ne_eq]

/-- **The first hit is the most specific one, in every order, exactly if all hits agree.** Every
    entry is first in some order. -/
theorem firstHit_iff (depth : α → Nat) (orders : ι → List α)
    (hperm : ∀ i, (orders i).Perm l)
    (hfirst : ∀ x ∈ l, ∃ i rest, orders i = x :: rest) :
    (∀ i, MostSpecific f depth l ((orders i).findSome? f)) ↔
      ∀ x ∈ l, ∀ y ∈ l, f x ≠ none → f y ≠ none → f x = f y := by
  constructor
  · intro h x hx y hy hfx hfy
    obtain ⟨z, hz, hfz, hmax⟩ := exists_deepest depth ⟨x, hx, hfx⟩
    -- an order that begins with an entry finds that entry
    have heq : ∀ w ∈ l, f w ≠ none → f w = f z := by
      intro w hw hfw
      obtain ⟨i, rest, hi⟩ := hfirst w hw
      have hz' := (h i).deepest z hz hfz hmax
      obtain ⟨b, hb⟩ := Option.ne_none_iff_exists'.mp hfw
      rw [hi, List.findSome?_cons, hb] at hz'
      rw [hb, ← hz']
    rw [heq x hx hfx, heq y hy hfy]
  · intro h i
    refine ⟨findSome?_ne_none_iff (hperm i), fun x hx hfx _ => ?_⟩
    obtain ⟨b, hb⟩ := Option.ne_none_iff_exists'.mp
      ((findSome?_ne_none_iff (hperm i)).mpr ⟨x, hx, hfx⟩)
    obtain ⟨w, hw, hfw⟩ := List.exists_of_findSome?_eq_some hb
    rw [hb, ← hfw]
    exact h w ((hperm i).mem_iff.mp hw) x hx (by simp [hfw]) hfx

end FirstHit

/-! ## 2. The two lookups -/

/-- A mount's destination is the path or holds it. -/
def MountHolds (path : Str) (m : Str × Str) : Prop :=
  trimSlash path = trimSlash m.1 ∨ trimSlash m.1 ++ ['/'] <+: trimSlash path

instance (path : Str) (m : Str × Str) : Decidable (MountHolds path m) :=
  inferInstanceAs (Decidable (_ ∨ _))

/-- The host path a mount gives a path: its source for the destination itself, and below it the
    source joined with what the path has behind the destination and a slash. -/
inductive MapsTo (path : Str) (m : Str × Str) : Str → Prop
  | whole (h : trimSlash path = trimSlash m.1) : MapsTo path m m.2
  | below (rest : Str) (h : trimSlash path = trimSlash m.1 ++ '/' :: rest) :
      MapsTo path m (joinPath m.2 rest)

theorem MapsTo.host_eq {path : Str} {m : Str × Str} {host host' : Str} (h : MapsTo path m host)
    (h' : MapsTo path m host') : host = host' := by
  cases h with
  | whole h =>
    cases h' with
    | whole _ => rfl
    | below rest' h' => rw [h] at h'; simp at h'
  | below rest h =>
    cases h' with
    | whole h' => rw [h'] at h; simp at h
    | below rest' h' =>
      rw [h] at h'
      have hrest : '/' :: rest = '/' :: rest' := List.append_cancel_left h'
      rw [(List.cons.inj hrest).2]

theorem mountHolds_iff {path : Str} {m : Str × Str} :
    MountHolds path m ↔ ∃ host, MapsTo path m host := by
  constructor
  · rintro (h | ⟨rest, h⟩)
    · exact ⟨_, .whole h⟩
    · exact ⟨_, .below rest (by rw [← h]; simp)⟩
  · rintro ⟨_, h | ⟨rest, h⟩⟩
    · exact .inl h
    · exact .inr ⟨rest, by rw [h]; simp⟩

theorem throughMount_of_mapsTo {path : Str} {m : Str × Str} {host : Str}
    (h : MapsTo path m host) : throughMount (trimSlash path) m = some host := by
  cases h with
  | whole h => simp [throughMount, h]
  | below rest h =>
    have hne : ¬ trimSlash m.1 ++ '/' :: rest = trimSlash m.1 := by simp
    have hsplit : trimSlash m.1 ++ '/' :: rest = (trimSlash m.1 ++ ['/']) ++ rest := by simp
    have hpre : Str.hasPrefix (trimSlash m.1 ++ '/' :: rest) (trimSlash m.1 ++ ['/']) = true :=
      Str.hasPrefix_iff.mpr ⟨rest, hsplit.symm⟩
    unfold throughMount
    simp only [h]
    rw [if_neg hne, if_pos hpre, hsplit, Str.trimPrefix_append]

theorem throughMount_eq_some_iff {path : Str} {m : Str × Str} {host : Str} :
    throughMount (trimSlash path) m = some host ↔ MapsTo path m host := by
  refine ⟨fun h => ?_, throughMount_of_mapsTo⟩
  have hh : MountHolds path m := by
    unfold throughMount at h
    simp only at h
    split_ifs at h with h1 h2
    · exact .inl h1
    · exact .inr (Str.hasPrefix_iff.mp h2)
  obtain ⟨host', hm⟩ := mountHolds_iff.mp hh
  rw [throughMount_of_mapsTo hm] at h
  rwa [← Option.some.inj h]

theorem throughMount_ne_none_iff {path : Str} {m : Str × Str} :
    throughMount (trimSlash path) m ≠ none ↔ MountHolds path m := by
  rw [mountHolds_iff, Option.ne_none_iff_exists']
  simp only [throughMount_eq_some_iff]

/-- A directory of the table is the path or holds it. -/
def DirHolds (cwd path : Str) (x : Str × Str) : Prop :=
  Path.segs (Path.abs cwd x.1) <+: Path.segs (Path.abs cwd path)

instance (cwd path : Str) (x : Str × Str) : Decidable (DirHolds cwd path x) :=
  inferInstanceAs (Decidable (_ <+: _))

theorem holds_iff {cwd : Str} (hc : Path.isAbs cwd = true) (path : Str) (x : Str × Str) :
    holds cwd x.1 path = true ↔ DirHolds cwd path x := by
  have hrel := Path.inside_rel_iff (Path.isAbs_abs hc x.1) (Path.isAbs_abs hc path)
  unfold holds DirHolds
  simp only [Bool.or_eq_true, decide_eq_true_eq]
  rw [hrel]
  constructor
  · rintro (h | h)
    · rw [h]
    · exact h
  · exact .inr

/-- What one entry of the table says of a path. -/
def projectOf (cwd path : Str) (x : Str × Str) : Option Str :=
  if holds cwd x.1 path then some x.2 else none

theorem projectForPath_eq (cwd : Str) (env : ComposeEnv) (rg : Ranges) (path : Str) :
    projectForPath cwd env rg path =
      (rg.paths env.pathProject).findSome? (projectOf cwd path) := by
  unfold projectForPath
  induction rg.paths env.pathProject with
  | nil => rfl
  | cons x l ih =>
      rw [List.find?_cons, List.findSome?_cons, projectOf]
      cases holds cwd x.1 path with
      | true => rfl
      | false => exact ih

theorem projectOf_ne_none_iff {cwd : Str} (hc : Path.isAbs cwd = true) {path : Str}
    {x : Str × Str} : projectOf cwd path x ≠ none ↔ DirHolds cwd path x := by
  rw [← holds_iff hc]
  unfold projectOf
  split <;> simp_all

/-- `TranslateMountPath` succeeds exactly if some destination is the path or holds it, and returns
    the host path that the longest such destination gives it. -/
structure MountLookup (mounts : Dict Str Str) (path : Str) (result : Option Str) : Prop where
  found : result ≠ none ↔ ∃ m ∈ mounts.entries, MountHolds path m
  longest : ∀ m ∈ mounts.entries, MountHolds path m →
    (∀ m' ∈ mounts.entries, MountHolds path m' →
      (trimSlash m'.1).length ≤ (trimSlash m.1).length) →
    ∃ host, MapsTo path m host ∧ result = some host

/-- `ProjectForPath` succeeds exactly if some directory is the path or holds it, and returns the
    project of the deepest such directory. -/
structure ProjectLookup (cwd : Str) (dirs : Dict Str Str) (path : Str) (result : Option Str) :
    Prop where
  found : result ≠ none ↔ ∃ x ∈ dirs.entries, DirHolds cwd path x
  deepest : ∀ x ∈ dirs.entries, DirHolds cwd path x →
    (∀ x' ∈ dirs.entries, DirHolds cwd path x' →
      (Path.segs (Path.abs cwd x'.1)).length ≤ (Path.segs (Path.abs cwd x.1)).length) →
    result = some x.2

theorem eq_throughMount_iff {path : Str} {m : Str × Str} {result : Option Str}
    (hm : MountHolds path m) :
    result = throughMount (trimSlash path) m ↔ ∃ host, MapsTo path m host ∧ result = some host := by
  obtain ⟨host, hhost⟩ := mountHolds_iff.mp hm
  rw [throughMount_of_mapsTo hhost]
  constructor
  · exact fun h => ⟨host, hhost, h⟩
  · rintro ⟨host', hhost', h⟩
    rw [h, hhost'.host_eq hhost]

theorem mountLookup_iff {mounts : Dict Str Str} {path : Str} {result : Option Str} :
    MountLookup mounts path result ↔
      MostSpecific (throughMount (trimSlash path)) (fun m => (trimSlash m.1).length) mounts.entries
        result := by
  constructor
  · rintro ⟨hf, hl⟩
    refine ⟨by simpa only [throughMount_ne_none_iff] using hf, fun m hm hfm hmax => ?_⟩
    simp only [throughMount_ne_none_iff] at hfm hmax
    exact (eq_throughMount_iff hfm).mpr (hl m hm hfm hmax)
  · rintro ⟨hf, hl⟩
    simp only [throughMount_ne_none_iff] at hf hl
    exact ⟨hf, fun m hm hh hmax => (eq_throughMount_iff hh).mp (hl m hm hh hmax)⟩

theorem throughMount_agree_iff {path : Str} {m m' : Str × Str} :
    (MountHolds path m → MountHolds path m' →
        throughMount (trimSlash path) m = throughMount (trimSlash path) m') ↔
      ∀ host host', MapsTo path m host → MapsTo path m' host' → host = host' := by
  constructor
  · intro h host host' hhost hhost'
    have := h (mountHolds_iff.mpr ⟨_, hhost⟩) (mountHolds_iff.mpr ⟨_, hhost'⟩)
    rw [throughMount_of_mapsTo hhost, throughMount_of_mapsTo hhost'] at this
    exact Option.some.inj this
  · intro h hm hm'
    obtain ⟨host, hhost⟩ := mountHolds_iff.mp hm
    obtain ⟨host', hhost'⟩ := mountHolds_iff.mp hm'
    rw [throughMount_of_mapsTo hhost, throughMount_of_mapsTo hhost', h _ _ hhost hhost']

theorem projectLookup_iff {cwd : Str} (hc : Path.isAbs cwd = true) {dirs : Dict Str Str}
    {path : Str} {result : Option Str} :
    ProjectLookup cwd dirs path result ↔
      MostSpecific (projectOf cwd path) (fun x => (Path.segs (Path.abs cwd x.1)).length)
        dirs.entries result := by
  have hval : ∀ x, DirHolds cwd path x → projectOf cwd path x = some x.2 := fun x hx => by
    rw [projectOf, if_pos ((holds_iff hc path x).mpr hx)]
  constructor
  · rintro ⟨hf, hl⟩
    simp only [← projectOf_ne_none_iff hc] at hf hl
    refine ⟨hf, fun x hx hfx hmax => ?_⟩
    rw [hl x hx hfx hmax, hval x ((projectOf_ne_none_iff hc).mp hfx)]
  · rintro ⟨hf, hl⟩
    simp only [projectOf_ne_none_iff hc] at hf hl
    refine ⟨hf, fun x hx hfx hmax => ?_⟩
    rw [hl x hx hfx hmax, hval x hfx]

/-! ## 3. When they pick the most specific owner -/

/-- **When path lookups pick the most specific owner, whatever the order.** For every mount table,
    every table of directories and every two paths: both lookups do in every order of iteration
    exactly if all the mounts that hold the one path map it to one place, and all the directories
    that hold the other belong to one project. -/
theorem pathLookups_iff {cwd : Str} (hc : Path.isAbs cwd = true) (mounts : Dict Str Str)
    (env : ComposeEnv) (containerPath path : Str) :
    (∀ rg : Ranges,
        MountLookup mounts containerPath (translateMountPath (rg.mounts mounts) containerPath) ∧
          ProjectLookup cwd env.pathProject path (projectForPath cwd env rg path)) ↔
      (∀ m ∈ mounts.entries, ∀ m' ∈ mounts.entries, ∀ host host',
          MapsTo containerPath m host → MapsTo containerPath m' host' → host = host') ∧
        ∀ x ∈ env.pathProject.entries, ∀ x' ∈ env.pathProject.entries, DirHolds cwd path x →
          DirHolds cwd path x' → x.2 = x'.2 := by
  have hmounts := firstHit_iff (f := throughMount (trimSlash containerPath))
    (fun m => (trimSlash m.1).length) (fun rg : Ranges => rg.mounts mounts)
    (fun rg => rg.mounts_perm mounts)
    (fun m hm => ⟨.front m m, (toFront_of_mem hm).imp fun _ h => h⟩)
  have hdirs := firstHit_iff (f := projectOf cwd path)
    (fun x => (Path.segs (Path.abs cwd x.1)).length) (fun rg : Ranges => rg.paths env.pathProject)
    (fun rg => rg.paths_perm env.pathProject)
    (fun x hx => ⟨.front x x, (toFront_of_mem hx).imp fun _ h => h⟩)
  have hval : ∀ x, DirHolds cwd path x → projectOf cwd path x = some x.2 := fun x hx => by
    rw [projectOf, if_pos ((holds_iff hc path x).mpr hx)]
  simp only [forall_and, mountLookup_iff, projectLookup_iff hc, translateMountPath,
    projectForPath_eq]
  rw [hmounts, hdirs]
  simp only [throughMount_ne_none_iff, projectOf_ne_none_iff hc, throughMount_agree_iff]
  refine and_congr_right fun _ => forall₄_congr fun x _ x' _ => forall₂_congr fun hx hx' => ?_
  rw [hval x hx, hval x' hx', Option.some.injEq]

/-- A directory of the host mounted at `/data`, and another one inside it at `/data/db`. -/
def nestedMounts : Dict Str Str :=
  (Dict.empty.put "/data".toList "/outer".toList).put "/data/db".toList "/inner".toList

/-- A directory of one project, and inside it one of another. -/
def nestedDirs : ComposeEnv where
  projects := .empty
  pathProject := (Dict.empty.put "/p".toList "a".toList).put "/p/q".toList "b".toList

/-- A file under the outer mount and a path in the outer directory alone have one owner: in every
    order the one is below `/outer`, and the other belongs to `a`. -/
theorem pathLookups_iff_outer :
    (∀ rg : Ranges, MountLookup nestedMounts "/data/x".toList
      (translateMountPath (rg.mounts nestedMounts) "/data/x".toList)) ∧
    ∀ rg : Ranges, ProjectLookup "/".toList nestedDirs.pathProject "/p/s.yaml".toList
      (projectForPath "/".toList nestedDirs rg "/p/s.yaml".toList) := by
  refine forall_and.mp ((pathLookups_iff (by decide) nestedMounts nestedDirs "/data/x".toList
    "/p/s.yaml".toList).mpr ⟨?_, by decide⟩)
  simp only [← throughMount_agree_iff]
  decide

/-- In the order of the keys the outer mount and the outer directory come first. -/
theorem outer_first :
    ¬ MountLookup nestedMounts "/data/db/x".toList
        (translateMountPath (Ranges.sorted.mounts nestedMounts) "/data/db/x".toList) ∧
      ¬ ProjectLookup "/".toList nestedDirs.pathProject "/p/q/s.yaml".toList
        (projectForPath "/".toList nestedDirs .sorted "/p/q/s.yaml".toList) := by
  constructor
  · intro h
    have hinner : throughMount (trimSlash "/data/db/x".toList) ("/data/db".toList, "/inner".toList) =
        some "/inner/x".toList := by decide
    have houter : translateMountPath (Ranges.sorted.mounts nestedMounts) "/data/db/x".toList =
        some "/outer/db/x".toList := by decide
    obtain ⟨host, hhost, hres⟩ := h.longest ("/data/db".toList, "/inner".toList) (by decide)
      (throughMount_ne_none_iff.mp (by rw [hinner]; decide)) (by decide)
    rw [← throughMount_eq_some_iff, hinner, ← hres, houter] at hhost
    exact absurd hhost (by decide)
  · intro h
    have houter : projectForPath "/".toList nestedDirs .sorted "/p/q/s.yaml".toList =
        some "a".toList := by decide
    have := h.deepest ("/p/q".toList, "b".toList) (by decide) (by decide) (by decide)
    rw [houter] at this
    exact absurd this (by decide)

end DevDashboard.Cmd
