/-
  File:      DevDashboard/Cmd/Derive.lean
  Subject:   WHAT THE RECONCILER DERIVES FROM THE APPS, AND WHEN IT SKIPS (`cmd/derive.go`).

  `derivePaths` takes the election's inputs from the running apps only, app by app. The
  fingerprint that decides whether a reconcile is skipped has ids, paths, stores and running ids
  in four sorted groups: whose path or store it is does not show.

  * `groups_eq_of_fingerprint` -- the fingerprint gives the groups back;
  * `Settled` -- the apps for which the groups fix the derived inputs;
  * `Settled.sameInputs`, `settled_of_skipSound` -- for these a skip is sound, for no others;
  * `skip_unsound` -- two lists of apps with one fingerprint.
-/
import DevDashboard.Lib.Frames
import DevDashboard.Lib.Path
import DevDashboard.Workflow.Load
import DevDashboard.Workflow.SummaryCache

namespace DevDashboard.Cmd

open Lib Workflow

/-! ## 1. Apps and what is derived from them -/

/-- `DaprdStatus`; `""` is unknown. -/
inductive DaprdStatus where
  | running
  | stopped
  | unknown
  deriving DecidableEq

/-- A component an app loaded. -/
structure AppComponent where
  name : Str
  type : Str
  deriving DecidableEq

/-- `discovery.Instance`, as far as the reconciler's inputs go. -/
structure AppInfo where
  appID : Str
  daprdStatus : DaprdStatus := .unknown
  resourcePaths : List Str := []
  configPath : Str := []
  components : List AppComponent := []
  deriving DecidableEq

/-- `appRunning`. -/
def appRunning (a : AppInfo) : Bool := decide (a.daprdStatus ≠ .stopped)

/-- `"state."`. -/
def statePrefix : Str := "state.".toList

/-- The names of the state stores an app loaded. -/
def AppInfo.stores (a : AppInfo) : List Str :=
  (a.components.filter fun c => Str.hasPrefix c.type statePrefix).map AppComponent.name

/-- Its resource paths and its configuration file. -/
def AppInfo.paths (a : AppInfo) : List Str :=
  a.resourcePaths ++ if a.configPath = [] then [] else [a.configPath]

/-- `filepath.Join(homeDir, ".dapr", "components")`. -/
def componentsDir (homeDir : Str) : Str :=
  Path.clean (homeDir ++ "/.dapr/".toList ++
    "components".toList)

/-- `filepath.Join(homeDir, ".dapr")`. -/
def daprDir (homeDir : Str) : Str := Path.clean (homeDir ++ "/.dapr".toList)

/-- What stays the same from reconcile to reconcile. -/
structure Fixed where
  homeDir : Str
  stateStorePath : Str
  extraResPaths : List Str

/-- What `derivePaths` returns. `loaded` lists the names of the set. -/
structure Derived where
  resPaths : List Str
  scanPaths : List Str
  loaded : List Str
  appPaths : List Str
  deriving DecidableEq

/-- `derivePaths`. -/
def derivePaths (fx : Fixed) (apps : List AppInfo) : Derived where
  resPaths :=
    (if fx.homeDir = [] then [] else [componentsDir fx.homeDir, daprDir fx.homeDir]) ++
      apps.flatMap AppInfo.paths ++ fx.extraResPaths
  scanPaths :=
    if fx.stateStorePath ≠ [] then [fx.stateStorePath]
    else
      (if fx.homeDir = [] then [] else [componentsDir fx.homeDir]) ++
        apps.flatMap AppInfo.resourcePaths
  loaded := (apps.filter appRunning).flatMap AppInfo.stores
  appPaths := (apps.filter appRunning).flatMap AppInfo.resourcePaths

/-- The byte 1, between two groups. -/
def soh : Char := '\x01'

/-- The groups of the fingerprint. -/
def fpGroups (apps : List AppInfo) : List (List Str) :=
  [sortStrings (apps.map AppInfo.appID), sortStrings (apps.flatMap AppInfo.paths),
    sortStrings (apps.flatMap AppInfo.stores),
    sortStrings ((apps.filter appRunning).map AppInfo.appID)]

/-- `appsFingerprint`; `sha` is SHA-256 in hex. -/
def appsFingerprint {H : Type} (sha : Str → H) (apps : List AppInfo) : H :=
  sha (Frames.frame nul soh (fpGroups apps))

/-! ## 2. The fingerprint gives the groups back -/

/-- The strings of an app that go into the fingerprint. -/
def AppInfo.strings (a : AppInfo) : List Str := a.appID :: (a.paths ++ a.stores)

/-- No string holds a NUL. -/
def NulFree (apps : List AppInfo) : Prop := ∀ a ∈ apps, ∀ x ∈ a.strings, nul ∉ x

/-- No string begins with the byte 1. -/
def SohFree (apps : List AppInfo) : Prop := ∀ a ∈ apps, ∀ x ∈ a.strings, x.head? ≠ some soh

theorem mem_fpGroups {apps : List AppInfo} {g : List Str} (hg : g ∈ fpGroups apps) {x : Str}
    (hx : x ∈ g) : ∃ a ∈ apps, x ∈ a.strings := by
  simp only [fpGroups, List.mem_cons, List.not_mem_nil, or_false] at hg
  rcases hg with rfl | rfl | rfl | rfl <;> rw [(sortStrings_perm _).mem_iff] at hx
  · obtain ⟨a, ha, rfl⟩ := List.mem_map.mp hx
    exact ⟨a, ha, List.mem_cons_self⟩
  · obtain ⟨a, ha, hx⟩ := List.mem_flatMap.mp hx
    exact ⟨a, ha, List.mem_cons_of_mem _ (List.mem_append_left _ hx)⟩
  · obtain ⟨a, ha, hx⟩ := List.mem_flatMap.mp hx
    exact ⟨a, ha, List.mem_cons_of_mem _ (List.mem_append_right _ hx)⟩
  · obtain ⟨a, ha, rfl⟩ := List.mem_map.mp hx
    exact ⟨a, List.mem_of_mem_filter ha, List.mem_cons_self⟩

/-- **The fingerprint gives the groups back**, if one of the lists has no string that begins with
    the separator. -/
theorem groups_eq_of_fingerprint {H : Type} {sha : Str → H} (hsha : Function.Injective sha)
    {apps apps' : List AppInfo} (hn : NulFree apps) (hs : SohFree apps) (hn' : NulFree apps')
    (h : appsFingerprint sha apps' = appsFingerprint sha apps) : fpGroups apps' = fpGroups apps := by
  have hterm : ∀ {l : List AppInfo}, NulFree l → Frames.Terminated nul (fpGroups l) := by
    intro l hl g hg x hx
    obtain ⟨a, ha, hxa⟩ := mem_fpGroups hg hx
    exact hl a ha x hxa
  refine (Frames.frame_inj (by decide) (hterm hn) ?_ (hterm hn') rfl (hsha h).symm).symm
  intro g hg x hx
  obtain ⟨a, ha, hxa⟩ := mem_fpGroups hg hx
  exact hs a ha x hxa

/-- Equal groups: the same ids, paths, stores and running ids, each as often. -/
theorem perm_of_groups {apps apps' : List AppInfo} (h : fpGroups apps' = fpGroups apps) :
    (apps'.map AppInfo.appID).Perm (apps.map AppInfo.appID) ∧
      (apps'.flatMap AppInfo.paths).Perm (apps.flatMap AppInfo.paths) ∧
      (apps'.flatMap AppInfo.stores).Perm (apps.flatMap AppInfo.stores) ∧
      ((apps'.filter appRunning).map AppInfo.appID).Perm
        ((apps.filter appRunning).map AppInfo.appID) := by
  have hperm : ∀ {l l' : List Str}, sortStrings l' = sortStrings l → l'.Perm l := fun he =>
    (sortStrings_perm _).symm.trans (he ▸ sortStrings_perm _)
  simp only [fpGroups, List.cons.injEq, and_true] at h
  exact ⟨hperm h.1, hperm h.2.1, hperm h.2.2.1, hperm h.2.2.2⟩

theorem sortStrings_eq_of_perm {l l' : List Str} (h : l.Perm l') :
    sortStrings l = sortStrings l' :=
  ((sortStrings_perm l).trans (h.trans (sortStrings_perm l').symm)).eq_of_pairwise'
    (pairwise_sortStrings l) (pairwise_sortStrings l')

/-- Apps by their id and whether they run. -/
def AppInfo.skel (a : AppInfo) : Str × Bool := (a.appID, appRunning a)

theorem ids_of_skel (l : List AppInfo) :
    l.map AppInfo.appID = (l.map AppInfo.skel).map Prod.fst := by
  rw [List.map_map]
  rfl

theorem runningIDs_of_skel (l : List AppInfo) :
    (l.filter appRunning).map AppInfo.appID = ((l.map AppInfo.skel).filter Prod.snd).map Prod.fst := by
  rw [List.filter_map, List.map_map]
  rfl

/-- Lists with the same skeleton, paths and stores have the same groups. -/
theorem groups_congr {l l' : List AppInfo} (hs : l'.map AppInfo.skel = l.map AppInfo.skel)
    (hp : (l'.flatMap AppInfo.paths).Perm (l.flatMap AppInfo.paths))
    (ht : l'.flatMap AppInfo.stores = l.flatMap AppInfo.stores) : fpGroups l' = fpGroups l := by
  unfold fpGroups
  rw [runningIDs_of_skel, runningIDs_of_skel, ids_of_skel, ids_of_skel, hs, ht,
    sortStrings_eq_of_perm hp]

/-- Whether there is a NUL shows in the groups. -/
theorem NulFree.of_groups {l l' : List AppInfo} (h : NulFree l) (hg : fpGroups l' = fpGroups l) :
    NulFree l' := by
  intro a ha x hx
  have hmem : ∃ g ∈ fpGroups l', x ∈ g := by
    simp only [fpGroups, List.mem_cons, List.not_mem_nil, or_false, exists_eq_or_imp,
      exists_eq_left, (sortStrings_perm _).mem_iff]
    rcases List.mem_cons.mp hx with rfl | hx
    · exact .inl (List.mem_map_of_mem ha)
    · rcases List.mem_append.mp hx with hx | hx
      · exact .inr (.inl (List.mem_flatMap.mpr ⟨a, ha, hx⟩))
      · exact .inr (.inr (.inl (List.mem_flatMap.mpr ⟨a, ha, hx⟩)))
  obtain ⟨g, hg', hxg⟩ := hmem
  obtain ⟨b, hb, hxb⟩ := mem_fpGroups (hg ▸ hg') hxg
  exact h b hb x hxb

/-! ## 3. The apps for which the groups fix the derived inputs -/

/-- The same inputs, as sets. -/
structure SameInputs (d d' : Derived) : Prop where
  resPaths : ∀ x, x ∈ d.resPaths ↔ x ∈ d'.resPaths
  scanPaths : ∀ x, x ∈ d.scanPaths ↔ x ∈ d'.scanPaths
  loaded : ∀ x, x ∈ d.loaded ↔ x ∈ d'.loaded
  appPaths : ∀ x, x ∈ d.appPaths ↔ x ∈ d'.appPaths

/-- A path that cannot be configuration files alone: the empty one, or one that occurs more often
    than there are apps. -/
def Pinned (apps : List AppInfo) (x : Str) : Prop :=
  x = [] ∨ apps.length < (apps.flatMap AppInfo.paths).count x

/-- **The apps for which the groups fix the derived inputs.** -/
structure Settled (fx : Fixed) (apps : List AppInfo) : Prop where
  scan : fx.stateStorePath = [] → ∀ x ∈ apps.flatMap AppInfo.paths,
    Pinned apps x ∨ fx.homeDir ≠ [] ∧ x = componentsDir fx.homeDir
  loaded : (∃ a ∈ apps, appRunning a = true) → (∃ a ∈ apps, appRunning a = false) →
    apps.flatMap AppInfo.stores = []
  app : (∃ a ∈ apps, appRunning a = true) → ∀ x ∈ apps.flatMap AppInfo.paths,
    (∀ a ∈ apps, appRunning a = true) ∧ Pinned apps x

/-- Every reconcile that is skipped after one of `apps` would have derived the same. -/
def SkipSound {H : Type} (sha : Str → H) (fx : Fixed) (apps : List AppInfo) : Prop :=
  ∀ apps', NulFree apps' → appsFingerprint sha apps' = appsFingerprint sha apps →
    SameInputs (derivePaths fx apps') (derivePaths fx apps)

theorem resourcePaths_subset {a : AppInfo} {x : Str} (h : x ∈ a.resourcePaths) : x ∈ a.paths :=
  List.mem_append_left _ h

theorem count_paths_le {apps : List AppInfo} {x : Str}
    (h : x ∉ apps.flatMap AppInfo.resourcePaths) :
    (apps.flatMap AppInfo.paths).count x ≤ apps.length := by
  induction apps with
  | nil => simp
  | cons a apps ih =>
      rw [List.flatMap_cons, List.mem_append, not_or] at h
      have ha : a.paths.count x ≤ 1 := by
        rw [AppInfo.paths, List.count_append, List.count_eq_zero_of_not_mem h.1]
        split
        · simp
        · rw [List.count_singleton]
          split <;> omega
      have ih := ih h.2
      rw [List.flatMap_cons, List.count_append, List.length_cons]
      omega

theorem nil_mem_resourcePaths {apps : List AppInfo} (h : [] ∈ apps.flatMap AppInfo.paths) :
    [] ∈ apps.flatMap AppInfo.resourcePaths := by
  obtain ⟨a, ha, hx⟩ := List.mem_flatMap.mp h
  refine List.mem_flatMap.mpr ⟨a, ha, ?_⟩
  rcases List.mem_append.mp hx with hx | hx
  · exact hx
  · split at hx
    · cases hx
    · rename_i hc
      exact absurd (List.mem_singleton.mp hx).symm hc

/-- **A pinned path is a resource path.** -/
theorem mem_resourcePaths_of_pinned {apps : List AppInfo} {x : Str} (hp : Pinned apps x)
    (h : x ∈ apps.flatMap AppInfo.paths) : x ∈ apps.flatMap AppInfo.resourcePaths := by
  rcases hp with rfl | hlt
  · exact nil_mem_resourcePaths h
  · by_contra hn
    exact absurd (count_paths_le hn) (by omega)

/-! ## 4. Settled apps: every skip is sound -/

section Sound

variable {fx : Fixed} {apps apps' : List AppInfo}

theorem mem_paths_of_mem_resourcePaths {x : Str} (h : x ∈ apps.flatMap AppInfo.resourcePaths) :
    x ∈ apps.flatMap AppInfo.paths := by
  obtain ⟨a, ha, hx⟩ := List.mem_flatMap.mp h
  exact List.mem_flatMap.mpr ⟨a, ha, resourcePaths_subset hx⟩

theorem mem_of_mem_running {f : AppInfo → List Str} {x : Str}
    (h : x ∈ (apps.filter appRunning).flatMap f) :
    x ∈ apps.flatMap f ∧ ∃ a ∈ apps, appRunning a = true := by
  obtain ⟨a, ha, hx⟩ := List.mem_flatMap.mp h
  obtain ⟨ha, hr⟩ := List.mem_filter.mp ha
  exact ⟨List.mem_flatMap.mpr ⟨a, ha, hx⟩, a, ha, hr⟩

theorem filter_of_all (h : ∀ a ∈ apps, appRunning a = true) : apps.filter appRunning = apps :=
  List.filter_eq_self.mpr h

variable (hg : fpGroups apps' = fpGroups apps)
include hg

theorem length_eq_of_groups : apps'.length = apps.length := by
  simpa using (perm_of_groups hg).1.length_eq

theorem running_length_eq : (apps'.filter appRunning).length = (apps.filter appRunning).length := by
  simpa using (perm_of_groups hg).2.2.2.length_eq

theorem exists_running_iff :
    (∃ a ∈ apps', appRunning a = true) ↔ ∃ a ∈ apps, appRunning a = true := by
  have hlen := running_length_eq hg
  have hne : ∀ l : List AppInfo, (∃ a ∈ l, appRunning a = true) ↔
      (l.filter appRunning).length ≠ 0 := by
    intro l
    rw [Ne, List.length_eq_zero_iff, List.filter_eq_nil_iff]
    simp
  rw [hne, hne, hlen]

theorem all_running_iff :
    (∀ a ∈ apps', appRunning a = true) ↔ ∀ a ∈ apps, appRunning a = true := by
  have hlen := running_length_eq hg
  have hl := length_eq_of_groups hg
  rw [← List.length_filter_eq_length_iff, ← List.length_filter_eq_length_iff, hlen, hl]

theorem pinned_iff {x : Str} : Pinned apps' x ↔ Pinned apps x := by
  unfold Pinned
  rw [length_eq_of_groups hg, (perm_of_groups hg).2.1.count_eq]

theorem mem_paths_iff {x : Str} :
    x ∈ apps'.flatMap AppInfo.paths ↔ x ∈ apps.flatMap AppInfo.paths :=
  (perm_of_groups hg).2.1.mem_iff

/-- The conditions are conditions on the groups. -/
theorem Settled.of_groups (h : Settled fx apps) : Settled fx apps' := by
  refine ⟨fun hssp x hx => ?_, fun hrun hstop => ?_, fun hrun x hx => ?_⟩
  · rw [pinned_iff hg]
    exact h.scan hssp x ((mem_paths_iff hg).mp hx)
  · have hstop' : ∃ a ∈ apps, appRunning a = false := by
      by_contra hn
      obtain ⟨a, ha, hr⟩ := hstop
      have hall : ∀ a ∈ apps, appRunning a = true := by
        intro b hb
        rw [← Bool.not_eq_false]
        exact fun hbf => hn ⟨b, hb, hbf⟩
      rw [(all_running_iff hg).mpr hall a ha] at hr
      cases hr
    have hnil := h.loaded ((exists_running_iff hg).mp hrun) hstop'
    have hp := (perm_of_groups hg).2.2.1
    rw [hnil] at hp
    exact hp.eq_nil
  · rw [pinned_iff hg, all_running_iff hg]
    exact h.app ((exists_running_iff hg).mp hrun) x ((mem_paths_iff hg).mp hx)

/-- One direction of each clause; the other is this one with the lists exchanged. -/
theorem Settled.le (h : Settled fx apps) :
    (∀ x ∈ (derivePaths fx apps').resPaths, x ∈ (derivePaths fx apps).resPaths) ∧
      (∀ x ∈ (derivePaths fx apps').scanPaths, x ∈ (derivePaths fx apps).scanPaths) ∧
      (∀ x ∈ (derivePaths fx apps').loaded, x ∈ (derivePaths fx apps).loaded) ∧
      ∀ x ∈ (derivePaths fx apps').appPaths, x ∈ (derivePaths fx apps).appPaths := by
  refine ⟨fun x hx => ?_, fun x hx => ?_, fun x hx => ?_, fun x hx => ?_⟩
  · simp only [derivePaths, List.mem_append] at hx ⊢
    rwa [mem_paths_iff hg] at hx
  · simp only [derivePaths] at hx ⊢
    by_cases hssp : fx.stateStorePath = []
    · simp only [hssp, ne_eq, not_true_eq_false, if_false, List.mem_append] at hx ⊢
      rcases hx with hx | hx
      · exact .inl hx
      · have hp := (mem_paths_iff hg).mp (mem_paths_of_mem_resourcePaths hx)
        rcases h.scan hssp x hp with hpin | ⟨hhome, hxc⟩
        · exact .inr (mem_resourcePaths_of_pinned hpin hp)
        · rw [if_neg hhome, hxc]
          exact .inl List.mem_cons_self
    · simpa only [ne_eq, hssp, not_false_eq_true, if_true] using hx
  · simp only [derivePaths] at hx ⊢
    obtain ⟨hx', hrun⟩ := mem_of_mem_running hx
    have hs := (perm_of_groups hg).2.2.1.mem_iff.mp hx'
    by_cases hall : ∀ a ∈ apps, appRunning a = true
    · rwa [filter_of_all hall]
    · have hstop : ∃ a ∈ apps, appRunning a = false := by simpa using hall
      rw [h.loaded ((exists_running_iff hg).mp hrun) hstop] at hs
      cases hs
  · simp only [derivePaths] at hx ⊢
    obtain ⟨hx', hrun⟩ := mem_of_mem_running hx
    have hp := (mem_paths_iff hg).mp (mem_paths_of_mem_resourcePaths hx')
    obtain ⟨hall, hpin⟩ := h.app ((exists_running_iff hg).mp hrun) x hp
    rw [filter_of_all hall]
    exact mem_resourcePaths_of_pinned hpin hp

theorem Settled.sameInputs (h : Settled fx apps) :
    SameInputs (derivePaths fx apps') (derivePaths fx apps) := by
  obtain ⟨h1, h2, h3, h4⟩ := h.le hg
  obtain ⟨h1', h2', h3', h4'⟩ := (h.of_groups hg).le hg.symm
  exact ⟨fun x => ⟨h1 x, h1' x⟩, fun x => ⟨h2 x, h2' x⟩, fun x => ⟨h3 x, h3' x⟩,
    fun x => ⟨h4 x, h4' x⟩⟩

end Sound

/-! ## 5. Other apps: some skip is not -/

/-- An app without paths and components. -/
def AppInfo.bare (a : AppInfo) : AppInfo :=
  { a with resourcePaths := [], configPath := [], components := [] }

/-- An app with these paths as resource paths, and these components. -/
def AppInfo.loadedWith (a : AppInfo) (paths : List Str) (cs : List AppComponent) : AppInfo :=
  { a with resourcePaths := paths, configPath := [], components := cs }

/-- All paths and components given to one app. -/
def gather (pre : List AppInfo) (a : AppInfo) (post : List AppInfo) : List AppInfo :=
  pre.map AppInfo.bare ++
    a.loadedWith ((pre ++ a :: post).flatMap AppInfo.paths)
      ((pre ++ a :: post).flatMap AppInfo.components) :: post.map AppInfo.bare

/-- The first `k` apps get `x` as their configuration file. -/
def withConfigs (x : Str) : Nat → List AppInfo → List AppInfo
  | _, [] => []
  | 0, a :: l => a.bare :: withConfigs x 0 l
  | k + 1, a :: l => { a.bare with configPath := x } :: withConfigs x k l

/-- `x` a configuration file everywhere, all else given to the first app. -/
def scatter (x : Str) (a : AppInfo) (l : List AppInfo) : List AppInfo :=
  let paths := (a :: l).flatMap AppInfo.paths
  { a.loadedWith (paths.filter fun y => y ≠ x) ((a :: l).flatMap AppInfo.components) with
    configPath := x } :: withConfigs x (paths.count x - 1) l

theorem flatMap_bare {f : AppInfo → List Str} (hf : ∀ a : AppInfo, f a.bare = [])
    (l : List AppInfo) : (l.map AppInfo.bare).flatMap f = [] := by
  rw [List.flatMap_eq_nil_iff]
  intro b hb
  obtain ⟨a, -, rfl⟩ := List.mem_map.mp hb
  exact hf a

theorem flatMap_stores (l : List AppInfo) : l.flatMap AppInfo.stores =
    ((l.flatMap AppInfo.components).filter fun c => Str.hasPrefix c.type statePrefix).map
      AppComponent.name := by
  rw [List.filter_flatMap, List.map_flatMap]
  rfl

theorem flatMap_gather {f : AppInfo → List Str} (hf : ∀ a : AppInfo, f a.bare = [])
    (pre post : List AppInfo) (a : AppInfo) :
    (gather pre a post).flatMap f = f (a.loadedWith ((pre ++ a :: post).flatMap AppInfo.paths)
      ((pre ++ a :: post).flatMap AppInfo.components)) := by
  rw [gather, List.flatMap_append, List.flatMap_cons, flatMap_bare hf, flatMap_bare hf]
  simp

theorem groups_gather (pre post : List AppInfo) (a : AppInfo) :
    fpGroups (gather pre a post) = fpGroups (pre ++ a :: post) := by
  refine groups_congr ?_ (List.Perm.of_eq ?_) ?_
  · simp only [gather, List.map_append, List.map_cons, List.map_map]
    rfl
  · rw [flatMap_gather (fun _ => rfl)]
    simp [AppInfo.paths, AppInfo.loadedWith]
  · rw [flatMap_gather (fun _ => rfl), flatMap_stores]
    rfl

theorem filter_bare (l : List AppInfo) :
    (l.map AppInfo.bare).filter appRunning = (l.filter appRunning).map AppInfo.bare := by
  rw [List.filter_map]
  rfl

/-- The running apps' share after a gathering: everything if the app runs, else nothing. -/
theorem running_gather {f : AppInfo → List Str} (hf : ∀ a : AppInfo, f a.bare = [])
    (pre post : List AppInfo) (a : AppInfo) :
    ((gather pre a post).filter appRunning).flatMap f =
      if appRunning a then (gather pre a post).flatMap f else [] := by
  rw [flatMap_gather hf, gather, List.filter_append, List.filter_cons, filter_bare, filter_bare,
    show appRunning (a.loadedWith _ _) = appRunning a from rfl]
  by_cases ha : appRunning a = true
  · rw [if_pos ha, if_pos ha, List.flatMap_append, List.flatMap_cons, flatMap_bare hf,
      flatMap_bare hf]
    simp
  · rw [if_neg ha, if_neg ha, List.flatMap_append, flatMap_bare hf, flatMap_bare hf]
    rfl

theorem paths_withConfigs {x : Str} (hx : x ≠ []) {k : Nat} {l : List AppInfo}
    (h : k ≤ l.length) : (withConfigs x k l).flatMap AppInfo.paths = List.replicate k x := by
  induction l generalizing k with
  | nil =>
      obtain rfl : k = 0 := by simpa using h
      rfl
  | cons a l ih =>
      cases k with
      | zero =>
          rw [withConfigs, List.flatMap_cons, ih (Nat.zero_le _)]
          rfl
      | succ k =>
          rw [withConfigs, List.flatMap_cons, ih (by simpa using h), List.replicate_succ]
          simp [AppInfo.paths, AppInfo.bare, hx]

theorem withConfigs_bare {f : AppInfo → List Str} {x : Str} (hf : ∀ a : AppInfo, f a.bare = [])
    (hf' : ∀ a : AppInfo, f { a.bare with configPath := x } = []) (k : Nat) (l : List AppInfo) :
    (withConfigs x k l).flatMap f = [] := by
  induction l generalizing k with
  | nil => cases k <;> rfl
  | cons a l ih => cases k <;> simp [withConfigs, hf, hf', ih]

theorem skel_withConfigs (x : Str) (k : Nat) (l : List AppInfo) :
    (withConfigs x k l).map AppInfo.skel = l.map AppInfo.skel := by
  induction l generalizing k with
  | nil => cases k <;> rfl
  | cons a l ih => cases k <;> simp [withConfigs, ih] <;> rfl

section Scatter

variable {x : Str} {a : AppInfo} {l : List AppInfo}

theorem groups_scatter (hx : x ≠ []) (hm : x ∈ (a :: l).flatMap AppInfo.paths)
    (hk : ((a :: l).flatMap AppInfo.paths).count x ≤ (a :: l).length) :
    fpGroups (scatter x a l) = fpGroups (a :: l) := by
  have hpos := List.count_pos_iff.mpr hm
  refine groups_congr ?_ ?_ ?_
  · simp only [scatter, List.map_cons, skel_withConfigs]
    rfl
  · have hk' : ((a :: l).flatMap AppInfo.paths).count x - 1 ≤ l.length := by
      rw [List.length_cons] at hk
      omega
    have hrest : ((a :: l).flatMap AppInfo.paths).filter (fun y => !decide (y ≠ x)) =
        x :: List.replicate (((a :: l).flatMap AppInfo.paths).count x - 1) x := by
      rw [← List.replicate_succ, Nat.sub_add_cancel hpos, ← List.filter_eq]
      simp
    have hsplit := List.filter_append_perm (fun y => decide (y ≠ x)) ((a :: l).flatMap AppInfo.paths)
    rw [hrest] at hsplit
    refine List.Perm.trans (List.Perm.of_eq ?_) hsplit
    rw [scatter, List.flatMap_cons, paths_withConfigs hx hk']
    simp [AppInfo.paths, AppInfo.loadedWith, hx]
  · rw [scatter, List.flatMap_cons, withConfigs_bare (fun _ => rfl) (fun _ => rfl), flatMap_stores,
      List.append_nil]
    rfl

theorem not_mem_resourcePaths_scatter : x ∉ (scatter x a l).flatMap AppInfo.resourcePaths := by
  rw [scatter, List.flatMap_cons, withConfigs_bare (fun _ => rfl) (fun _ => rfl), List.append_nil]
  show x ∉ List.filter _ _
  simp

end Scatter

section Unsound

variable {H : Type} {sha : Str → H} {fx : Fixed} {apps : List AppInfo} {x : Str}

/-- Lists with the groups of `apps` derive the same, if every skip is sound. -/
theorem SkipSound.same (h : SkipSound sha fx apps) (hn : NulFree apps) {l l' : List AppInfo}
    (hl : fpGroups l = fpGroups apps) (hl' : fpGroups l' = fpGroups apps) :
    SameInputs (derivePaths fx l) (derivePaths fx l') := by
  have hfp : ∀ {l : List AppInfo}, fpGroups l = fpGroups apps →
      SameInputs (derivePaths fx l) (derivePaths fx apps) := fun {l} hg =>
    h l (hn.of_groups hg) (by rw [appsFingerprint, hg]; rfl)
  have h1 := hfp hl
  have h2 := hfp hl'
  exact ⟨fun x => (h1.resPaths x).trans (h2.resPaths x).symm,
    fun x => (h1.scanPaths x).trans (h2.scanPaths x).symm,
    fun x => (h1.loaded x).trans (h2.loaded x).symm,
    fun x => (h1.appPaths x).trans (h2.appPaths x).symm⟩

theorem paths_loadedWith (a : AppInfo) (paths : List Str) (cs : List AppComponent) :
    (a.loadedWith paths cs).resourcePaths = paths := rfl

/-- A path that is not pinned is a resource path in one list and not in another. -/
theorem exists_scatter (hx : x ∈ apps.flatMap AppInfo.paths) (hp : ¬ Pinned apps x) :
    ∃ pre a post l, apps = pre ++ a :: post ∧ fpGroups l = fpGroups apps ∧
      x ∈ (gather pre a post).flatMap AppInfo.resourcePaths ∧
      x ∉ l.flatMap AppInfo.resourcePaths := by
  cases apps with
  | nil => cases hx
  | cons a l =>
      simp only [Pinned, not_or, not_lt] at hp
      refine ⟨[], a, l, scatter x a l, rfl, groups_scatter hp.1 hx hp.2, ?_,
        not_mem_resourcePaths_scatter⟩
      rw [flatMap_gather (fun _ => rfl)]
      exact hx

/-- **Where every skip is sound, the apps are settled.** -/
theorem settled_of_skipSound (hn : NulFree apps) (h : SkipSound sha fx apps) : Settled fx apps := by
  refine ⟨fun hssp x hx => ?_, fun ⟨a, ha, hra⟩ ⟨b, hb, hrb⟩ => ?_, fun ⟨a, ha, hra⟩ x hx => ?_⟩
  · by_contra hno
    rw [not_or] at hno
    obtain ⟨pre, a, post, l, rfl, hl, hin, hout⟩ := exists_scatter hx hno.1
    have hs := (h.same hn (groups_gather pre post a) hl).scanPaths x
    simp only [derivePaths, hssp, ne_eq, not_true_eq_false, if_false, List.mem_append] at hs
    rcases hs.mp (.inr hin) with hc | hc
    · split at hc
      · cases hc
      · rename_i hhome
        exact hno.2 ⟨hhome, List.mem_singleton.mp hc⟩
    · exact hout hc
  · -- all stores given to a running app, and all given to a stopped one
    obtain ⟨pre, post, hsplit⟩ := List.append_of_mem ha
    obtain ⟨pre', post', hsplit'⟩ := List.append_of_mem hb
    have hs := (h.same hn (hsplit ▸ groups_gather pre post a)
      (hsplit' ▸ groups_gather pre' post' b)).loaded
    simp only [derivePaths, running_gather (f := AppInfo.stores) (fun _ => rfl), hra, hrb,
      if_true, Bool.false_eq_true, if_false, List.not_mem_nil, iff_false] at hs
    rw [List.eq_nil_iff_forall_not_mem]
    intro x hx
    refine hs x ?_
    have hg := perm_of_groups (groups_gather pre post a)
    exact hg.2.2.1.mem_iff.mpr (hsplit ▸ hx)
  · have happ : ∀ pre b post, apps = pre ++ b :: post → appRunning b = true →
        x ∈ (derivePaths fx (gather pre b post)).appPaths := by
      intro pre b post hsplit hrb
      simp only [derivePaths, running_gather (f := AppInfo.resourcePaths) (fun _ => rfl), hrb,
        if_true, flatMap_gather (f := AppInfo.resourcePaths) (fun _ => rfl)]
      rw [paths_loadedWith, ← hsplit]
      exact hx
    obtain ⟨pre, post, hsplit⟩ := List.append_of_mem ha
    have hin := happ pre a post hsplit hra
    refine ⟨fun b hb => ?_, ?_⟩
    · by_contra hrb
      obtain ⟨pre', post', hsplit'⟩ := List.append_of_mem hb
      have hs := ((h.same hn (hsplit ▸ groups_gather pre post a)
        (hsplit' ▸ groups_gather pre' post' b)).appPaths x).mp hin
      simp only [derivePaths, running_gather (f := AppInfo.resourcePaths) (fun _ => rfl),
        if_neg hrb, List.not_mem_nil] at hs
    · by_contra hno
      obtain ⟨-, -, -, l, -, hl, -, hout⟩ := exists_scatter hx hno
      have hs := ((h.same hn (hsplit ▸ groups_gather pre post a) hl).appPaths x).mp hin
      exact hout (mem_of_mem_running hs).1

end Unsound

/-- **When a skipped reconcile is sound**, for the apps last reconciled: settled apps none of
    whose strings begins with the byte 1 are enough, and unsettled apps are not. -/
theorem skip_sound_iff {H : Type} {sha : Str → H} (hsha : Function.Injective sha) (fx : Fixed)
    {apps : List AppInfo} (hn : NulFree apps) :
    (SohFree apps ∧ Settled fx apps → SkipSound sha fx apps) ∧
      (SkipSound sha fx apps → Settled fx apps) :=
  ⟨fun ⟨hs, hset⟩ _ hn' hfp => hset.sameInputs (groups_eq_of_fingerprint hsha hn hs hn' hfp),
    fun h => settled_of_skipSound hn h⟩

/-- The app `a` stopped, with a path and a store. -/
def stoppedApp : AppInfo where
  appID := "a".toList
  daprdStatus := .stopped
  resourcePaths := ["/p".toList]
  components := [⟨"s".toList, "state.r".toList⟩]

/-- Two running apps over one directory, which `a` names twice; each loaded a store. -/
def runningApps : List AppInfo :=
  [{ stoppedApp with daprdStatus := .running, resourcePaths := ["/p".toList, "/p".toList] },
    { appID := "b".toList, daprdStatus := .running, resourcePaths := ["/p".toList]
      components := [⟨"t".toList, "state.u".toList⟩, ⟨"q".toList, "pubsub.r".toList⟩] }]

/-- No state store path is set: the apps' own directory is scanned. -/
theorem skip_sound_iff_running : SkipSound id ⟨"/h".toList, [], []⟩ runningApps := by
  have hpinned : ∀ x ∈ runningApps.flatMap AppInfo.paths, Pinned runningApps x := by
    intro x hx
    right
    revert x
    decide
  refine (skip_sound_iff Function.injective_id ⟨"/h".toList, [], []⟩ ?_).1 ⟨?_, ?_, ?_, ?_⟩
  · unfold NulFree
    decide
  · unfold SohFree
    decide
  · exact fun _ x hx => .inl (hpinned x hx)
  · exact fun _ h => absurd h (by decide)
  · exact fun _ x hx => ⟨by decide, hpinned x hx⟩

/-- Two apps, `a` running and `b` stopped; the path and the store are those of `a`. -/
def runningOwns : List AppInfo :=
  [{ stoppedApp with daprdStatus := .running }, { appID := "b".toList, daprdStatus := .stopped }]

/-- The same apps; the path and the store are those of `b`. -/
def stoppedOwns : List AppInfo :=
  [{ appID := "a".toList, daprdStatus := .running }, { stoppedApp with appID := "b".toList }]

/-- **Equal fingerprints, different inputs**: a store that changes hands from a running app to a
    stopped one does not change the fingerprint, but the election's inputs. -/
theorem skip_unsound :
    NulFree runningOwns ∧ NulFree stoppedOwns ∧
      (∀ (H : Type) (sha : Str → H),
        appsFingerprint sha stoppedOwns = appsFingerprint sha runningOwns) ∧
      (derivePaths ⟨"/h".toList, [], []⟩ runningOwns).loaded = ["s".toList] ∧
      (derivePaths ⟨"/h".toList, [], []⟩ stoppedOwns).loaded = [] ∧
      (derivePaths ⟨"/h".toList, [], []⟩ runningOwns).appPaths = ["/p".toList] ∧
      (derivePaths ⟨"/h".toList, [], []⟩ stoppedOwns).appPaths = [] := by
  have hg : fpGroups stoppedOwns = fpGroups runningOwns :=
    groups_congr (by decide) (by decide) (by decide)
  refine ⟨?_, ?_, fun H sha => ?_, by decide, by decide, by decide, by decide⟩
  · unfold NulFree
    decide
  · unfold NulFree
    decide
  · rw [appsFingerprint, hg]
    rfl

end DevDashboard.Cmd
