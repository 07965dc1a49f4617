/-
  File:      DevDashboard/SelfUpdate/Run.lean
  Subject:   SELF-UPDATE IS ALL OR NOTHING (`pkg/selfupdate`: `Updater.Run`, `replaceExecutable`).

  `Files` gives what a name of the file system leads to; different names lead to different files
  (no links, no second spelling of a name). The operations of one run are numbered by where they
  stand (`Op`), and each may fail (`Host.fails`): a write after any number of bytes, the
  others without effect. A rename also fails if its source is missing. Removing a missing file
  changes nothing and is no failure.

  * `AtMostOne` -- the assumption: no two operations of the run fail;
  * `AllOrNothing` -- what a run leaves in the file system, for each result;
  * `writeTemp_spec`, `swapWindows_spec`, `swapUnix_spec`, `replaceExecutable_spec` -- what each
    part leaves;
  * **`run_all_or_nothing`** -- every run is all or nothing.

  Both branches of `replaceExecutable` are covered: `Host.windows` is `runtime.GOOS`, and
  independent of the platform that is downloaded.
-/
import DevDashboard.SelfUpdate.Release

namespace DevDashboard.SelfUpdate

open Lib StateStore
open Url (Octets utf8)

/-! ## 1. Files -/

structure File where
  bytes : Octets
  mode : Nat
  deriving DecidableEq

/-- The file a name leads to. -/
abbrev Files := Str → Option File

/-- The operations of a run on the file system, by the place they stand at. -/
inductive Op where
  | evalSymlinks
  | createTemp
  | write
  | close
  | chmod
  | removeOld
  | moveAside
  | install
  | restore
  | removeOldAfter
  | removeTemp
  deriving DecidableEq

/-- An error of package `os`: its text, and whether `errors.Is(err, os.ErrPermission)`. -/
structure OsError where
  text : Str
  permission : Bool

/-- `fmt.Errorf("…: %w", err)`. -/
def OsError.wrap (pre : Str) (e : OsError) : OsError := { e with text := pre ++ e.text }

/-- The machine: `runtime.GOOS`, `filepath.EvalSymlinks` where it succeeds, `filepath.Dir`, the
    separator, the number in the name that `os.CreateTemp` picks, how many bytes a failing write
    writes, which operations fail and how. -/
structure Host where
  windows : Bool
  evalSymlinks : Str → Str
  dir : Str → Str
  separator : Char
  random : Nat
  written : Nat
  fails : Op → Bool
  osError : Op → OsError

/-- **At most one operation fails.** -/
def AtMostOne (fails : Op → Bool) : Prop :=
  ∀ o o' : Op, fails o = true → fails o' = true → o = o'

/-- A name leads to this file from now on. -/
def Files.set (fs : Files) (name : Str) (f : Option File) : Files := Function.update fs name f

@[simp] theorem Files.set_self (fs : Files) (name : Str) (f : Option File) :
    fs.set name f name = f := Function.update_self ..

theorem Files.set_of_ne {fs : Files} {name other : Str} {f : Option File} (h : other ≠ name) :
    fs.set name f other = fs other := Function.update_of_ne h ..

namespace Host

variable (h : Host)

/-- `os.Remove`, its error ignored. -/
def remove (o : Op) (name : Str) (fs : Files) : Files :=
  if h.fails o then fs else fs.set name none

/-- `os.Rename`. -/
def rename (o : Op) (src dst : Str) (fs : Files) : Except OsError Files :=
  if h.fails o ∨ fs src = none then .error (h.osError o)
  else .ok ((fs.set dst (fs src)).set src none)

/-- The name `os.CreateTemp(dir, ".diagrid-dev-dashboard-update-*")` picks. -/
def tempName (path : Str) : Str :=
  let dir := h.dir path
  (if dir.getLast? = some h.separator then dir else dir ++ [h.separator]) ++
    ".diagrid-dev-dashboard-update-".toList ++ Nat.toDigits 10 h.random

def oldName (path : Str) : Str := path ++ ".old".toList

/-! ## 2. Replacing the executable -/

/-- The temporary file is written, closed and made executable. (After a failed write it is closed
    too, which changes no file.) -/
def writeTemp (tmp : Str) (newBin : Octets) (fs : Files) : Except OsError Unit × Files :=
  if h.fails .write then
    (.error ((h.osError .write).wrap "write temp binary: ".toList),
      fs.set tmp (some ⟨newBin.take h.written, 0o600⟩))
  else
    let fs := fs.set tmp (some ⟨newBin, 0o600⟩)
    if h.fails .close then (.error ((h.osError .close).wrap "close temp binary: ".toList), fs)
    else if h.fails .chmod then
      (.error ((h.osError .chmod).wrap "chmod temp binary: ".toList), fs)
    else (.ok (), fs.set tmp (some ⟨newBin, 0o755⟩))

/-- The branch for Windows: the running binary is moved aside, and back if the new one cannot be
    put in its place. -/
def swapWindows (tmp path : Str) (fs : Files) : Except OsError Unit × Files :=
  let old := oldName path
  let fs := h.remove .removeOld old fs
  match h.rename .moveAside path old fs with
  | .error e => (.error (e.wrap "move current binary aside: ".toList), fs)
  | .ok fs =>
      match h.rename .install tmp path fs with
      | .error e =>
          (.error (e.wrap "install new binary: ".toList),
            match h.rename .restore old path fs with
            | .error _ => fs
            | .ok fs => fs)
      | .ok fs => (.ok (), h.remove .removeOldAfter old fs)

/-- The branch for the other systems. -/
def swapUnix (tmp path : Str) (fs : Files) : Except OsError Unit × Files :=
  match h.rename .install tmp path fs with
  | .error e => (.error (e.wrap "install new binary: ".toList), fs)
  | .ok fs => (.ok (), fs)

/-- What `replaceExecutable` does between creating the temporary file and removing it. -/
def replaceWith (tmp path : Str) (newBin : Octets) (fs : Files) : Except OsError Unit × Files :=
  match h.writeTemp tmp newBin fs with
  | (.error e, fs) => (.error e, fs)
  | (.ok _, fs) => if h.windows then h.swapWindows tmp path fs else h.swapUnix tmp path fs

/-- `replaceExecutable`. -/
def replaceExecutable (path : Str) (newBin : Octets) (fs : Files) : Except OsError Unit × Files :=
  if h.fails .createTemp then
    (.error ((h.osError .createTemp).wrap
      ("create temp file in ".toList ++ h.dir path ++ ": ".toList)), fs)
  else
    let tmp := h.tempName path
    let r := h.replaceWith tmp path newBin (fs.set tmp (some ⟨[], 0o600⟩))
    (r.1, h.remove .removeTemp tmp r.2)

/-! ### What each part leaves -/

variable {h}

theorem remove_of_ne {o : Op} {name other : Str} {fs : Files} (hne : other ≠ name) :
    h.remove o name fs other = fs other := by
  unfold remove
  split
  · rfl
  · exact Files.set_of_ne hne

theorem remove_self (o : Op) (name : Str) (fs : Files) :
    h.remove o name fs name = none ∨ h.fails o = true ∧ h.remove o name fs name = fs name := by
  unfold remove
  split
  · exact .inr ⟨‹_›, rfl⟩
  · exact .inl (Files.set_self ..)

theorem rename_of_fails {o : Op} {src dst : Str} {fs : Files} (hf : h.fails o = true) :
    h.rename o src dst fs = .error (h.osError o) := if_pos (.inl hf)

theorem rename_of_some {o : Op} {src dst : Str} {fs : Files} {f : File} (hf : h.fails o = false)
    (hsrc : fs src = some f) :
    h.rename o src dst fs = .ok ((fs.set dst (some f)).set src none) := by
  unfold rename
  rw [if_neg (by simp [hf, hsrc]), hsrc]

/-- **Writing the temporary file** touches no other file, and if it succeeds then the file is the
    new binary, executable. -/
theorem writeTemp_spec (tmp : Str) (newBin : Octets) (fs : Files) :
    (∀ name, name ≠ tmp → (h.writeTemp tmp newBin fs).2 name = fs name) ∧
      ((h.writeTemp tmp newBin fs).1 = .ok () →
        (h.writeTemp tmp newBin fs).2 tmp = some ⟨newBin, 0o755⟩) := by
  unfold writeTemp
  split_ifs
  · exact ⟨fun name hne => Files.set_of_ne hne, nofun⟩
  · exact ⟨fun name hne => Files.set_of_ne hne, nofun⟩
  · exact ⟨fun name hne => Files.set_of_ne hne, nofun⟩
  · refine ⟨fun name hne => ?_, fun _ => Files.set_self ..⟩
    dsimp only
    rw [Files.set_of_ne hne, Files.set_of_ne hne]

/-- What replacing the executable `orig` by a file `new` leaves of the files `fs`. -/
structure Replaced (h : Host) (tmp path : Str) (orig new : File) (fs : Files)
    (r : Except OsError Unit × Files) : Prop where
  kept : ∀ e, r.1 = .error e → r.2 path = some orig
  installed : r.1 = .ok () → r.2 path = some new
  oldGone : r.2 (oldName path) = none ∨ r.2 (oldName path) = fs (oldName path) ∨
    h.fails .removeOldAfter = true
  frame : ∀ name, name ≠ tmp → name ≠ path → name ≠ oldName path → r.2 name = fs name

theorem path_ne_oldName (path : Str) : path ≠ oldName path := by
  unfold oldName
  intro heq
  have hlen := congrArg List.length heq
  rw [List.length_append] at hlen
  have : (".old".toList).length = 4 := rfl
  omega

section Swap

variable {tmp path : Str} {orig new : File} {fs : Files} (hpath : fs path = some orig)
  (htmp : fs tmp = some new) (hne : tmp ≠ path) (hold : tmp ≠ oldName path)
include hpath htmp hne hold

theorem swapUnix_spec : Replaced h tmp path orig new fs (h.swapUnix tmp path fs) := by
  unfold swapUnix
  cases hf : h.fails .install with
  | true =>
      rw [rename_of_fails hf]
      exact ⟨fun _ _ => hpath, nofun, .inr (.inl rfl), fun _ _ _ _ => rfl⟩
  | false =>
      rw [rename_of_some hf htmp]
      refine ⟨nofun, fun _ => ?_, .inr (.inl ?_), fun name hnt hnp _ => ?_⟩
      · exact (Files.set_of_ne hne.symm).trans (Files.set_self ..)
      · exact (Files.set_of_ne hold.symm).trans (Files.set_of_ne (path_ne_oldName path).symm)
      · exact (Files.set_of_ne hnt).trans (Files.set_of_ne hnp)

/-- The branch for Windows, operation by operation. If the new binary cannot be put in its place
    then nothing else fails, so the old one is back. -/
theorem swapWindows_spec (hone : AtMostOne h.fails) :
    Replaced h tmp path orig new fs (h.swapWindows tmp path fs) := by
  have hpo := path_ne_oldName path
  unfold swapWindows
  dsimp only
  generalize hfs₁ : h.remove .removeOld (oldName path) fs = fs₁
  have hsame : ∀ name, name ≠ oldName path → fs₁ name = fs name := fun name hname =>
    hfs₁ ▸ remove_of_ne hname
  have hpath₁ : fs₁ path = some orig := (hsame path hpo).trans hpath
  have htmp₁ : fs₁ tmp = some new := (hsame tmp hold).trans htmp
  cases hmove : h.fails .moveAside with
  | true =>
      rw [rename_of_fails hmove]
      refine ⟨fun _ _ => hpath₁, nofun, ?_, fun name _ _ hno => hsame name hno⟩
      rcases remove_self .removeOld (oldName path) fs with hgone | ⟨-, hsame₁⟩
      · exact .inl (hfs₁ ▸ hgone)
      · exact .inr (.inl (hfs₁ ▸ hsame₁))
  | false =>
      rw [rename_of_some hmove hpath₁]
      have htmp₂ : ((fs₁.set (oldName path) (some orig)).set path none) tmp = some new := by
        rw [Files.set_of_ne hne, Files.set_of_ne hold, htmp₁]
      have hold₂ : ((fs₁.set (oldName path) (some orig)).set path none) (oldName path) =
          some orig := by
        rw [Files.set_of_ne hpo.symm, Files.set_self]
      cases hinst : h.fails .install with
      | true =>
          have hrest : h.fails .restore = false := by
            by_contra hrest
            cases hone .install .restore hinst (by simpa using hrest)
          dsimp only
          rw [rename_of_fails hinst, rename_of_some hrest hold₂]
          refine ⟨fun _ _ => ?_, nofun, .inl (Files.set_self ..),
            fun name _ hnp hno => ?_⟩
          · dsimp only
            rw [Files.set_of_ne hpo, Files.set_self]
          · dsimp only
            rw [Files.set_of_ne hno, Files.set_of_ne hnp, Files.set_of_ne hnp, Files.set_of_ne hno,
              hsame name hno]
      | false =>
          dsimp only
          rw [rename_of_some hinst htmp₂]
          refine ⟨nofun, fun _ => ?_, ?_, fun name hnt hnp hno => ?_⟩
          · dsimp only
            rw [remove_of_ne hpo, Files.set_of_ne hne.symm, Files.set_self]
          · rcases remove_self .removeOldAfter (oldName path) _ with hgone | ⟨hfail, -⟩
            · exact .inl hgone
            · exact .inr (.inr hfail)
          · dsimp only
            rw [remove_of_ne hno, Files.set_of_ne hnt, Files.set_of_ne hnp, Files.set_of_ne hnp,
              Files.set_of_ne hno, hsame name hno]

end Swap

theorem replaceWith_spec {tmp path : Str} {orig : File} {fs : Files} (newBin : Octets)
    (hone : AtMostOne h.fails) (hpath : fs path = some orig) (hne : tmp ≠ path)
    (hold : tmp ≠ oldName path) :
    Replaced h tmp path orig ⟨newBin, 0o755⟩ fs (h.replaceWith tmp path newBin fs) := by
  obtain ⟨hframe, hnew⟩ := writeTemp_spec (h := h) tmp newBin fs
  unfold replaceWith
  generalize h.writeTemp tmp newBin fs = r at hframe hnew
  obtain ⟨res, fs₁⟩ := r
  have hpath₁ : fs₁ path = some orig := (hframe path hne.symm).trans hpath
  cases res with
  | error e =>
      exact ⟨fun _ _ => hpath₁, nofun, .inr (.inl (hframe _ hold.symm)),
        fun name hnt _ _ => hframe name hnt⟩
  | ok _ =>
      have hspec : Replaced h tmp path orig ⟨newBin, 0o755⟩ fs₁
          (if h.windows then h.swapWindows tmp path fs₁ else h.swapUnix tmp path fs₁) := by
        split
        · exact swapWindows_spec hpath₁ (hnew rfl) hne hold hone
        · exact swapUnix_spec hpath₁ (hnew rfl) hne hold
      refine ⟨hspec.kept, hspec.installed, ?_, fun name hnt hnp hno => ?_⟩
      · have heq : fs₁ (oldName path) = fs (oldName path) := hframe _ hold.symm
        rw [← heq]
        exact hspec.oldGone
      · exact (hspec.frame name hnt hnp hno).trans (hframe name hnt)

/-- The name of the temporary file ends in a digit. -/
theorem tempName_ne_oldName (path : Str) : h.tempName path ≠ oldName path := by
  intro heq
  have hdigits : Nat.toDigits 10 h.random ≠ [] := Nat.toDigits_ne_nil
  have hlast := congrArg List.getLast? heq
  unfold tempName oldName at hlast
  rw [List.getLast?_append_of_ne_nil _ hdigits, List.getLast?_append_of_ne_nil _ (by decide)]
    at hlast
  have hmem : 'd' ∈ Nat.toDigits 10 h.random := List.mem_of_getLast? hlast
  exact absurd (Nat.isDigit_of_mem_toDigits (by decide) (by decide) hmem) (by decide)

/-- **What `replaceExecutable` leaves**: the executable as it was or the new one, and no temporary
    file unless removing it is what failed. -/
theorem replaceExecutable_spec {path : Str} {orig : File} {fs : Files} (newBin : Octets)
    (hone : AtMostOne h.fails) (hpath : fs path = some orig) (hfresh : fs (h.tempName path) = none) :
    Replaced h (h.tempName path) path orig ⟨newBin, 0o755⟩ fs (h.replaceExecutable path newBin fs) ∧
      ((h.replaceExecutable path newBin fs).2 (h.tempName path) = none ∨
        h.fails .removeTemp = true) := by
  have hne : h.tempName path ≠ path := by
    intro heq
    rw [heq, hpath] at hfresh
    cases hfresh
  have hold := tempName_ne_oldName (h := h) path
  unfold replaceExecutable
  split
  · exact ⟨⟨fun _ _ => hpath, nofun, .inr (.inl rfl), fun _ _ _ _ => rfl⟩,
      .inl hfresh⟩
  · have hpath₁ : fs.set (h.tempName path) (some ⟨[], 0o600⟩) path = some orig :=
      (Files.set_of_ne hne.symm).trans hpath
    have hspec := replaceWith_spec newBin hone hpath₁ hne hold
    refine ⟨⟨fun e he => ?_, fun hok => ?_, ?_, fun name hnt hnp hno => ?_⟩, ?_⟩
    · exact (remove_of_ne hne.symm).trans (hspec.kept e he)
    · exact (remove_of_ne hne.symm).trans (hspec.installed hok)
    · have heq : (fs.set (h.tempName path) (some ⟨[], 0o600⟩)) (oldName path) =
          fs (oldName path) := Files.set_of_ne hold.symm
      dsimp only
      rw [remove_of_ne hold.symm, ← heq]
      exact hspec.oldGone
    · exact (remove_of_ne hnt).trans ((hspec.frame name hnt hnp hno).trans (Files.set_of_ne hnt))
    · exact (remove_self ..).imp_right And.left

end Host

/-! ## 3. The run -/

/-- `Updater`, without the client and `Out`. -/
structure Updater where
  repo : Str
  apiBase : Str
  downloadBase : Str
  goos : Str
  goarch : Str
  currentVersion : Str
  execPath : Str

/-- `Result`. -/
structure Result where
  «from» : Str
  «to» : Str
  skipped : Bool

section Run

variable (u : Updater) (lib : Libraries) (server : Server) (h : Host)

/-- `ResolveLatest`. -/
def resolveLatest (apiBase repo : Str) : Except Str Str :=
  match httpGet server .latest (apiBase ++ "/repos/".toList ++ repo ++ "/releases/latest".toList) with
  | .error e => .error ("resolve latest release: ".toList ++ e.text)
  | .ok body =>
      match lib.tagName body with
      | .error e => .error ("parse latest release: ".toList ++ e)
      | .ok tag =>
          if tag = [] then .error "latest release has no tag_name".toList
          else .ok (normalizeVersion tag)

/-- The version to install. -/
def resolveTarget (requested : Str) : Except Str Str :=
  if requested = [] then resolveLatest lib server u.apiBase u.repo
  else .ok (normalizeVersion requested)

def archiveURL (target : Str) : Str :=
  u.downloadBase ++ '/' :: u.repo ++ "/releases/download/".toList ++ target ++
    '/' :: assetName target u.goos u.goarch

def checksumsURL (target : Str) : Str :=
  u.downloadBase ++ '/' :: u.repo ++ "/releases/download/".toList ++ target ++
    "/checksums.txt".toList

/-- The part of `Run` that downloads and verifies: the new binary. -/
def fetch (target : Str) : Except Str Octets :=
  let name := assetName target u.goos u.goarch
  match httpGet server .archive (archiveURL u target) with
  | .error .notFound =>
      .error ("release ".toList ++ target ++ " not found for ".toList ++ u.goos ++ '/' :: u.goarch)
  | .error (.other e) => .error ("download ".toList ++ name ++ ": ".toList ++ e)
  | .ok archive =>
      match httpGet server .checksums (checksumsURL u target) with
      | .error e => .error ("download checksums: ".toList ++ e.text)
      | .ok sums =>
          match verifyChecksum lib archive name sums with
          | .error e => .error e
          | .ok _ => extractBinary lib archive u.goos

/-- The resolved path of the executable; without `EvalSymlinks` the path as it is. -/
def installPath : Str :=
  if h.fails .evalSymlinks then u.execPath else h.evalSymlinks u.execPath

/-- The error of `replaceExecutable` as `Run` returns it. -/
def installError (path : Str) (e : OsError) : Str :=
  if e.permission then
    "cannot write ".toList ++ path ++
      ": permission denied — re-run the install script or use sudo: ".toList ++ e.text
  else e.text

/-- `Updater.Run`: the result, and the files it leaves. -/
def run (requested : Str) (fs : Files) : Except Str Result × Files :=
  match resolveTarget u lib server requested with
  | .error e => (.error e, fs)
  | .ok target =>
      if requested = [] ∧ versionsEqual target u.currentVersion then
        (.ok ⟨u.currentVersion, target, true⟩, fs)
      else
        match fetch u lib server target with
        | .error e => (.error e, fs)
        | .ok bin =>
            match h.replaceExecutable (installPath u h) bin fs with
            | (.error e, fs) => (.error (installError (installPath u h) e), fs)
            | (.ok _, fs) => (.ok ⟨u.currentVersion, target, false⟩, fs)

/-! ## 4. All or nothing -/

/-- **What a run leaves** of the files `fs`, where the executable was `orig`:

    * after an error or with nothing to do the executable is as it was;
    * after an update it is the binary entry of an archive that was served for the platform, and
      whose SHA-256 is what the served `checksums.txt` lists for the name of that archive;
    * the temporary file is gone unless removing it failed, and so is the old executable;
    * what every other name leads to is as it was. -/
structure AllOrNothing (fs : Files) (orig : File) (r : Except Str Result × Files) : Prop where
  kept : (∀ res, r.1 = .ok res → res.skipped = true) → r.2 (installPath u h) = some orig
  installed : ∀ res, r.1 = .ok res → res.skipped = false → ∃ archive sums bin,
    Served server .archive (archiveURL u res.to) archive ∧
    Served server .checksums (checksumsURL u res.to) sums ∧
    listedChecksum sums (assetName res.to u.goos u.goarch) =
      some (utf8 (hexText (lib.sha256 archive))) ∧
    BinaryEntry lib archive u.goos bin ∧ r.2 (installPath u h) = some ⟨bin, 0o755⟩
  tempGone : r.2 (h.tempName (installPath u h)) = none ∨ h.fails .removeTemp = true
  oldGone : r.2 (Host.oldName (installPath u h)) = none ∨
    r.2 (Host.oldName (installPath u h)) = fs (Host.oldName (installPath u h)) ∨
    h.fails .removeOldAfter = true
  frame : ∀ name, name ≠ h.tempName (installPath u h) → name ≠ installPath u h →
    name ≠ Host.oldName (installPath u h) → r.2 name = fs name

variable {u lib server h}

/-- **What is fetched is verified.** -/
theorem fetch_ok {target : Str} {bin : Octets} (hok : fetch u lib server target = .ok bin) :
    ∃ archive sums, Served server .archive (archiveURL u target) archive ∧
      Served server .checksums (checksumsURL u target) sums ∧
      listedChecksum sums (assetName target u.goos u.goarch) =
        some (utf8 (hexText (lib.sha256 archive))) ∧
      BinaryEntry lib archive u.goos bin := by
  unfold fetch at hok
  dsimp only at hok
  cases harchive : httpGet server .archive (archiveURL u target) with
  | error e =>
      rw [harchive] at hok
      cases e <;> cases hok
  | ok archive =>
      rw [harchive] at hok
      dsimp only at hok
      cases hsums : httpGet server .checksums (checksumsURL u target) with
      | error e =>
          rw [hsums] at hok
          cases hok
      | ok sums =>
          rw [hsums] at hok
          dsimp only at hok
          cases hver : verifyChecksum lib archive (assetName target u.goos u.goarch) sums with
          | error e =>
              rw [hver] at hok
              cases hok
          | ok _ =>
              rw [hver] at hok
              exact ⟨archive, sums, httpGet_ok_iff.mp harchive, httpGet_ok_iff.mp hsums,
                (verifyChecksum_ok_iff lib).mp hver, (extractBinary_ok_iff lib).mp hok⟩

/-- A run that touches no file and installs nothing. -/
theorem allOrNothing_of_same {fs : Files} {orig : File} {res : Except Str Result}
    (horig : fs (installPath u h) = some orig) (hfresh : fs (h.tempName (installPath u h)) = none)
    (hskip : ∀ r, res = .ok r → r.skipped = true) :
    AllOrNothing u lib server h fs orig (res, fs) :=
  ⟨fun _ => horig, fun r hr hnot => absurd (hskip r hr) (by simp [hnot]), .inl hfresh,
    .inr (.inl rfl), fun _ _ _ _ => rfl⟩

/-- **Self-update is all or nothing.** Whatever the server answers, whatever the archive and the
    checksums are, and whichever single operation of the file system fails. `os.CreateTemp` picks a
    name that is free. -/
theorem run_all_or_nothing (requested : Str) {fs : Files} {orig : File}
    (hone : AtMostOne h.fails) (horig : fs (installPath u h) = some orig)
    (hfresh : fs (h.tempName (installPath u h)) = none) :
    AllOrNothing u lib server h fs orig (run u lib server h requested fs) := by
  unfold run
  cases resolveTarget u lib server requested with
  | error e => exact allOrNothing_of_same horig hfresh nofun
  | ok target =>
      dsimp only
      split
      · refine allOrNothing_of_same horig hfresh ?_
        rintro r ⟨⟩
        rfl
      · cases hfetch : fetch u lib server target with
        | error e => exact allOrNothing_of_same horig hfresh nofun
        | ok bin =>
            obtain ⟨archive, sums, harchive, hsums, hlisted, hentry⟩ := fetch_ok hfetch
            obtain ⟨hrep, htemp⟩ := Host.replaceExecutable_spec bin hone horig hfresh
            dsimp only
            generalize h.replaceExecutable (installPath u h) bin fs = r at hrep htemp
            obtain ⟨res, fs'⟩ := r
            cases res with
            | error e =>
                exact ⟨fun _ => hrep.kept e rfl, nofun, htemp, hrep.oldGone, hrep.frame⟩
            | ok _ =>
                refine ⟨fun hskip => absurd (hskip _ rfl) (by simp), ?_, htemp, hrep.oldGone,
                  hrep.frame⟩
                rintro r ⟨⟩ -
                exact ⟨archive, sums, bin, harchive, hsums, hlisted, hentry,
                  hrep.installed rfl⟩

end Run

/-- A zip with one entry, the binary `x` for Windows. -/
def smallZip : Octets :=
  [80, 75, 3, 4, 20, 0, 0, 0, 0, 0, 0, 0, 33, 0, 131, 22, 220, 140, 1, 0, 0, 0, 1, 0, 0, 0, 25, 0,
   0, 0, 100, 105, 97, 103, 114, 105, 100, 45, 100, 101, 118, 45, 100, 97, 115, 104, 98, 111, 97,
   114, 100, 46, 101, 120, 101, 120, 80, 75, 1, 2, 20, 3, 20, 0, 0, 0, 0, 0, 0, 0, 33, 0, 131, 22,
   220, 140, 1, 0, 0, 0, 1, 0, 0, 0, 25, 0, 0, 0, 0, 0, 0, 0, 0, 0, 0, 0, 128, 1, 0, 0, 0, 0, 100,
   105, 97, 103, 114, 105, 100, 45, 100, 101, 118, 45, 100, 97, 115, 104, 98, 111, 97, 114, 100,
   46, 101, 120, 101, 80, 75, 5, 6, 0, 0, 0, 0, 1, 0, 1, 0, 71, 0, 0, 0, 56, 0, 0, 0, 0, 0]

/-- Its SHA-256. -/
def smallSum : Octets :=
  [232, 30, 118, 87, 189, 221, 117, 78, 223, 55, 131, 127, 197, 46, 210, 45, 144, 48, 200, 122, 21,
   224, 12, 6, 223, 46, 19, 178, 83, 242, 120, 7]

/-- What the libraries say about `smallZip`. -/
def smallLibraries : Libraries where
  tagName _ := .ok "v1.2.0".toList
  sha256 _ := smallSum
  untarGz _ := .error "gzip: invalid header".toList
  unzip _ := .ok [("diagrid-dev-dashboard.exe".toList, .ok (.ok [120]))]

/-- A server with the release 1.2.0. -/
def smallServer : Server := fun req _ =>
  .ok ⟨200, "200 OK".toList,
    match req with
    | .latest => utf8 "\x7b\"tag_name\":\"v1.2.0\"\x7d".toList
    | .archive => smallZip
    | .checksums => utf8 (hexText smallSum ++
        "  diagrid-dev-dashboard_1.2.0_windows_amd64.zip\n".toList), none⟩

/-- Windows, where the new binary cannot be put in its place. -/
def lockedHost : Host where
  windows := true
  evalSymlinks p := p
  dir _ := "C:\\bin".toList
  separator := '\\'
  random := 4711
  written := 0
  fails o := o = .install
  osError _ := ⟨"The process cannot access the file.".toList, false⟩

def smallUpdater : Updater where
  repo := "diagridio/dev-dashboard".toList
  apiBase := "https://api.github.com".toList
  downloadBase := "https://github.com".toList
  goos := "windows".toList
  goarch := "amd64".toList
  currentVersion := "v1.0.0".toList
  execPath := "C:\\bin\\dashboard.exe".toList

/-- The old binary, and nothing else. -/
def smallFiles : Files :=
  Function.update (fun _ => none) smallUpdater.execPath (some ⟨[111, 108, 100], 0o755⟩)

/-- The run downloads, verifies and moves the old binary aside; then it is put back. -/
theorem run_all_or_nothing_locked :
    (run smallUpdater smallLibraries smallServer lockedHost [] smallFiles).1.toBool = false ∧
      (run smallUpdater smallLibraries smallServer lockedHost [] smallFiles).2
        smallUpdater.execPath = some ⟨[111, 108, 100], 0o755⟩ := by
  have hres : (run smallUpdater smallLibraries smallServer lockedHost [] smallFiles).1.toBool =
      false := by decide +kernel
  have hone : AtMostOne lockedHost.fails := fun o o' ho ho' =>
    (of_decide_eq_true ho).trans (of_decide_eq_true ho').symm
  have hall : AllOrNothing smallUpdater smallLibraries smallServer lockedHost smallFiles
      ⟨[111, 108, 100], 0o755⟩
      (run smallUpdater smallLibraries smallServer lockedHost [] smallFiles) :=
    run_all_or_nothing [] hone (by decide +kernel) (by decide +kernel)
  have hkept := hall.kept
  generalize run smallUpdater smallLibraries smallServer lockedHost [] smallFiles = r
    at hres hkept ⊢
  refine ⟨hres, hkept fun res hok => ?_⟩
  rw [hok] at hres
  cases hres

end DevDashboard.SelfUpdate
