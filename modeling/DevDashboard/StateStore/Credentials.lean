/-
  File:      DevDashboard/StateStore/Credentials.lean
  Subject:   WHETHER A SUMMARY DEPENDS ON CREDENTIALS (`ConnInfo` of `pkg/statestore/conninfo.go`,
             `identity` of `cmd/reconciler.go`).

  Two components that differ in credentials only are put side by side (`CredVariant`). What is a
  credential is said by the formats, not by the source: libpq reads a connection string, `net/url`
  a URL. The source cuts a connection string at white space, so that a password with blanks in it
  may have fields of its own.

  * `pgConnInfo_of_url`, `mongoConnInfo_of_variant` -- a user of a URL or of a bare host is not shown;
  * `dsnInfo_of_shielded`, `shielded_of_dsnInfo` -- **what is shown of a connection string does not
    depend on the credentials** exactly if the fields behind each of them set host, port and
    database again (`Shielded`);
  * `connInfo_independent_iff` -- **both, of components**;
  * `password_shows` -- a host in a password.
-/
import DevDashboard.StateStore.TranslatePg

namespace DevDashboard.StateStore

open Lib
open Lib.Conninfo (Setting ValueText run)
open Lib.NetUrl (Authority readAuthority readUserinfo hostText)

/-! ## 1. Fields -/

section Fields

variable {c : Char} {s a b : Str}

theorem mem_takeWhile_imp {p : Char → Bool} (h : c ∈ s.takeWhile p) : p c = true :=
  List.all_eq_true.mp List.all_takeWhile c h

/-- White space around a text adds no field. -/
theorem fields_trimSpace (s : Str) : fields (trimSpace s) = fields s := by
  have hlead : ∀ c ∈ (blanks s).1, isSpace c = true := fun c hc => mem_takeWhile_imp hc
  have htail : ∀ c ∈ (blanks s).2, isSpace c = true := fun c hc =>
    mem_takeWhile_imp (List.mem_reverse.mp hc)
  conv_rhs => rw [← blanks_append_trimSpace s]
  rw [fields_append_spaces htail, fields_spaces_append hlead]

/-- A text without the white space at its end. -/
def trimRight (s : Str) : Str := (s.reverse.dropWhile isSpace).reverse

theorem prefix_trimRight (s : Str) : trimRight s <+: s := by
  have := List.reverse_prefix.mpr (List.dropWhile_suffix isSpace (l := s.reverse))
  rwa [List.reverse_reverse] at this

theorem trimSpace_append_cons (h : isSpace c = false) (a b : Str) :
    trimSpace (a ++ c :: b) = a.dropWhile isSpace ++ c :: trimRight b := by
  have hleft : (a ++ c :: b).dropWhile isSpace = a.dropWhile isSpace ++ c :: b := by
    rw [List.dropWhile_append]
    split
    · rename_i hnil
      rw [List.isEmpty_iff.mp hnil, List.dropWhile_cons_of_neg (by rw [h]; exact Bool.false_ne_true)]
      rfl
    · rfl
  have hright : ∀ a' : Str, (a' ++ c :: b).reverse.dropWhile isSpace =
      b.reverse.dropWhile isSpace ++ c :: a'.reverse := by
    intro a'
    have hrev : (a' ++ c :: b).reverse = b.reverse ++ c :: a'.reverse := by simp
    rw [hrev, List.dropWhile_append]
    split
    · rename_i hnil
      rw [List.isEmpty_iff.mp hnil, List.dropWhile_cons_of_neg (by rw [h]; exact Bool.false_ne_true)]
      rfl
    · rfl
  rw [trimSpace, hleft, hright]
  simp [trimRight]

/-- The fields that begin behind a text that is joined to what stands before it. -/
def behind (r : Str) : List Str := fields (r.dropWhile fun c => !isSpace c)

/-- What is joined to the text before `r`. -/
def joined (r : Str) : Str := r.takeWhile fun c => !isSpace c

theorem fields_append_behind (a r : Str) : fields (a ++ r) = fields (a ++ joined r) ++ behind r := by
  have hr : r = joined r ++ r.dropWhile fun c => !isSpace c :=
    List.takeWhile_append_dropWhile.symm
  conv_lhs => rw [hr, ← List.append_assoc]
  unfold behind
  cases hd : r.dropWhile fun c => !isSpace c with
  | nil =>
      rw [List.append_nil]
      exact (List.append_nil _).symm
  | cons c t =>
      have hc : isSpace c = true := by
        have := List.head?_dropWhile_not (fun c => !isSpace c) r
        rw [hd] at this
        simpa using this
      have hcons := fields_append_cons hc [] t
      rw [List.nil_append] at hcons
      rw [fields_append_cons hc, hcons]
      rfl

end Fields

/-! ## 2. What the fields of a connection string show -/

/-- A field that sets one of the keys. -/
def SetsKey (keys : List Str) (field : Str) : Prop :=
  '=' ∈ field ∧ (field.takeWhile (· ≠ '=')).map Char.toLower ∈ keys

instance (keys : List Str) (field : Str) : Decidable (SetsKey keys field) :=
  inferInstanceAs (Decidable (_ ∧ _))

/-- The value of the last field that sets one of the keys. -/
def lastValue (keys : List Str) (fs : List Str) : Option Str :=
  (fs.reverse.find? fun f => decide (SetsKey keys f)).map fun f => (f.dropWhile (· ≠ '=')).tail

def hostKeys : List Str := ["host".toList]

def portKeys : List Str := ["port".toList]

def dbKeys : List Str := ["dbname".toList, "database".toList]

section Shown

variable {keys fs gs : List Str} {f : Str}

theorem lastValue_append (keys fs gs : List Str) :
    lastValue keys (fs ++ gs) = (lastValue keys gs).or (lastValue keys fs) := by
  rw [lastValue, lastValue, lastValue, List.reverse_append, List.find?_append, Option.map_or]

theorem lastValue_cons (keys : List Str) (f : Str) (fs : List Str) :
    lastValue keys (f :: fs) = (lastValue keys fs).or (lastValue keys [f]) :=
  lastValue_append keys [f] fs

theorem lastValue_singleton_of_not (h : ¬ SetsKey keys f) : lastValue keys [f] = none := by
  simp [lastValue, h]

theorem lastValue_singleton (h : SetsKey keys f) :
    lastValue keys [f] = some (f.dropWhile (· ≠ '=')).tail := by
  simp [lastValue, h]

theorem lastValue_getD_of_not (h : ¬ SetsKey keys f) (v : Str) :
    (lastValue keys [f]).getD v = v := by
  rw [lastValue_singleton_of_not h]
  rfl

theorem lastValue_getD (h : SetsKey keys f) (v : Str) :
    (lastValue keys [f]).getD v = (f.dropWhile (· ≠ '=')).tail := by
  rw [lastValue_singleton h]
  rfl

/-- One field. -/
theorem dsnStep_eq (acc : Str × Str × Str) (f : Str) :
    dsnStep acc f = ((lastValue hostKeys [f]).getD acc.1, (lastValue portKeys [f]).getD acc.2.1,
      (lastValue dbKeys [f]).getD acc.2.2) := by
  unfold dsnStep
  by_cases heq : '=' ∈ f
  · rw [if_pos heq]
    dsimp only
    -- the three sets of keys are disjoint
    have hin : ∀ {keys : List Str} {key : Str}, (f.takeWhile (· ≠ '=')).map Char.toLower = key →
        key ∈ keys → SetsKey keys f := fun hk h => ⟨heq, hk ▸ h⟩
    have hout : ∀ {keys : List Str} {key : Str}, (f.takeWhile (· ≠ '=')).map Char.toLower = key →
        key ∉ keys → ¬ SetsKey keys f := fun hk h hs => h (hk ▸ hs.2)
    split
    · rename_i hk
      rw [lastValue_getD (hin hk (by decide)), lastValue_getD_of_not (hout hk (by decide)),
        lastValue_getD_of_not (hout hk (by decide))]
    · rename_i hhost
      have hnotHost : ¬ SetsKey hostKeys f := fun hs => hhost (List.mem_singleton.mp hs.2)
      split
      · rename_i hk
        rw [lastValue_getD_of_not hnotHost, lastValue_getD (hin hk (by decide)),
          lastValue_getD_of_not (hout hk (by decide))]
      · rename_i hport
        have hnotPort : ¬ SetsKey portKeys f := fun hs => hport (List.mem_singleton.mp hs.2)
        rw [lastValue_getD_of_not hnotHost, lastValue_getD_of_not hnotPort]
        split
        · rename_i hk
          rw [lastValue_getD ⟨heq, by simpa [dbKeys] using hk⟩]
        · rename_i hdb
          rw [lastValue_getD_of_not fun hs => hdb (by simpa [dbKeys] using hs.2)]
  · have hnot : ∀ keys, ¬ SetsKey keys f := fun keys h => heq h.1
    rw [if_neg heq, lastValue_getD_of_not (hnot _), lastValue_getD_of_not (hnot _),
      lastValue_getD_of_not (hnot _)]

/-- **The loop finds the last host, the last port and the last database.** -/
theorem foldl_dsnStep (acc : Str × Str × Str) (fs : List Str) :
    fs.foldl dsnStep acc = ((lastValue hostKeys fs).getD acc.1, (lastValue portKeys fs).getD acc.2.1,
      (lastValue dbKeys fs).getD acc.2.2) := by
  induction fs generalizing acc with
  | nil => rfl
  | cons f fs ih =>
      rw [List.foldl_cons, ih, dsnStep_eq, lastValue_cons hostKeys f fs,
        lastValue_cons portKeys f fs, lastValue_cons dbKeys f fs, Option.getD_or, Option.getD_or,
        Option.getD_or]

/-- What is shown of the fields. -/
def dsnInfo (fs : List Str) : Str :=
  joinInfo (dsnHostPort ((lastValue hostKeys fs).getD []) ((lastValue portKeys fs).getD []))
    ((lastValue dbKeys fs).getD [])

theorem pgConnInfo_of_not_url {parseURL : Str → Option ParsedURL} {cs : Str}
    (h : isPgURL (trimSpace cs) = false) :
    pgConnInfo parseURL cs = dsnInfo (fields cs) := by
  have hparts : joinInfo (dsnHostPort (dsnParts (trimSpace cs)).1 (dsnParts (trimSpace cs)).2.1)
      (dsnParts (trimSpace cs)).2.2 = dsnInfo (fields cs) := by
    rw [dsnParts, foldl_dsnStep, fields_trimSpace]
    rfl
  unfold pgConnInfo
  dsimp only
  split
  · rename_i hnil
    rw [← hparts, hnil]
    rfl
  · rw [h, if_neg Bool.false_ne_true]
    exact hparts

/-- The fields alone decide what is shown, whatever stands before them. -/
structure Determined (fs : List Str) : Prop where
  host : lastValue hostKeys fs ≠ none
  db : lastValue dbKeys fs ≠ none
  /-- the port of no host is not shown -/
  port : lastValue hostKeys fs = some [] ∨ lastValue portKeys fs ≠ none

theorem dsnInfo_of_determined (h : Determined gs) (fs : List Str) :
    dsnInfo (fs ++ gs) = dsnInfo gs := by
  obtain ⟨host, hhost⟩ := Option.ne_none_iff_exists'.mp h.host
  obtain ⟨db, hdb⟩ := Option.ne_none_iff_exists'.mp h.db
  simp only [dsnInfo, lastValue_append, hhost, hdb, Option.some_or, Option.getD_some]
  rcases h.port with hnil | hport
  · obtain rfl := Option.some.inj (hhost.symm.trans hnil)
    simp [dsnHostPort]
  · obtain ⟨port, hport⟩ := Option.ne_none_iff_exists'.mp hport
    rw [hport]
    rfl

end Shown

/-! ## 3. Credentials of a connection string -/

def userKey : Str := "user".toList

def passwordKey : Str := "password".toList

/-- Behind `p` the text `v` is the value of a user or of a password, and `r` stands behind it. -/
def CredentialAt (p v r : Str) : Prop :=
  ∃ l k w, run .idle p = some (l, .equals k) ∧ (k = userKey ∨ k = passwordKey) ∧ ValueText k v w r

/-- The same text, but for the values of users and passwords. -/
inductive DsnVariant : Str → Str → Prop
  | same (s : Str) : DsnVariant s s
  | vary {p v v' r r' : Str} (h : CredentialAt p v r) (h' : CredentialAt p v' r')
      (hrest : DsnVariant r r') : DsnVariant (p ++ (v ++ r)) (p ++ (v' ++ r'))

/-- A connection string that libpq accepts; with the prefix of a URL it is none. -/
def IsDsn (keyword : Str → Prop) (cs : Str) : Prop :=
  (∃ m, ValidDsn keyword cs m) ∧ isPgURL (trimSpace cs) = false

/-- Behind every user and password stand fields that decide what is shown. -/
def Shielded (cs : Str) : Prop :=
  ∀ p v r, cs = p ++ (v ++ r) → CredentialAt p v r → Determined (behind r)

section Dsn

variable {cs cs' p v r : Str}

/-- A credential behind another one. -/
theorem CredentialAt.append {p' v' r' : Str} (h : CredentialAt p v r) (hr : r = p' ++ (v' ++ r'))
    (h' : CredentialAt p' v' r') : CredentialAt (p ++ (v ++ p')) v' r' := by
  obtain ⟨l, k, w, hrun, -, hv⟩ := h
  obtain ⟨l', k', w', hrun', hk', hv'⟩ := h'
  refine ⟨l ++ (k, w) :: l', k', w', ?_, hk', hv'⟩
  rw [Conninfo.run_append, hrun, Option.bind_some, hv.run_append hr hrun']
  rfl

/-- **Variants have the same text behind the last credential in which they differ.** -/
theorem DsnVariant.cases_last (h : DsnVariant cs cs') :
    cs = cs' ∨ ∃ p v r x, cs = p ++ (v ++ r) ∧ CredentialAt p v r ∧ cs' = x ++ r := by
  induction h with
  | same s => exact .inl rfl
  | @vary p v v' r r' h h' hrest ih =>
      right
      rcases ih with rfl | ⟨p₂, v₂, r₂, x, rfl, h₂, rfl⟩
      · exact ⟨p, v, r, p ++ v', rfl, h, (List.append_assoc _ _ _).symm⟩
      · refine ⟨p ++ (v ++ p₂), v₂, r₂, p ++ (v' ++ x), ?_, h.append rfl h₂, ?_⟩
        · simp only [List.append_assoc]
        · simp only [List.append_assoc]

/-- **Shielded credentials are not shown.** -/
theorem dsnInfo_of_shielded (hs : Shielded cs) (h : DsnVariant cs cs') :
    dsnInfo (fields cs') = dsnInfo (fields cs) := by
  rcases h.cases_last with rfl | ⟨p, v, r, x, rfl, hcred, rfl⟩
  · rfl
  · have hdet := hs p v r rfl hcred
    rw [← List.append_assoc, fields_append_behind, fields_append_behind (p ++ v),
      dsnInfo_of_determined hdet, dsnInfo_of_determined hdet]

/-! ## 4. A credential that is shown -/

/-- A value with a field of its own in it. -/
def fill (field : Str) : Str := "x ".toList ++ field ++ " y".toList

/-- Its text, between quotes. -/
def fillText (field : Str) : Str := '\'' :: (fill field ++ ['\''])

/-- A text without white space, quotes and backslashes. -/
def Solid (s : Str) : Prop := s ≠ [] ∧ ∀ c ∈ s, isSpace c = false ∧ c ≠ '\'' ∧ c ≠ '\\'

theorem solid_of_all {s : Str} (hne : s ≠ [])
    (h : (s.all fun c => decide (isSpace c = false ∧ c ≠ '\'' ∧ c ≠ '\\')) = true) : Solid s :=
  ⟨hne, Str.forall_mem_of_all h⟩

variable {field : Str}

theorem valueText_fill (h : Solid field) (k r : Str) : ValueText k (fillText field) (fill field) r := by
  refine .quoted (Conninfo.run_quoted (v := []) fun c hc => ?_)
  rcases List.mem_append.mp hc with hc | hc
  · rcases List.mem_append.mp hc with hc | hc
    · exact Str.forall_mem_of_all (p := fun c => c ≠ '\'' ∧ c ≠ '\\') (by decide) c hc
    · exact (h.2 c hc).2
  · exact Str.forall_mem_of_all (p := fun c => c ≠ '\'' ∧ c ≠ '\\') (by decide) c hc

theorem CredentialAt.fill (hc : CredentialAt p v r) (h : Solid field) :
    CredentialAt p (fillText field) r := by
  obtain ⟨l, k, w, hrun, hk, -⟩ := hc
  exact ⟨l, k, _, hrun, hk, valueText_fill h k r⟩

/-- The field in the value is a field of the string. -/
theorem fields_fill (h : Solid field) (p r : Str) :
    fields (p ++ (fillText field ++ r)) =
      fields (p ++ "'x".toList) ++ (field :: ("y'".toList ++ joined r) :: behind r) := by
  have hspace : isSpace ' ' = true := by decide
  have htext : p ++ (fillText field ++ r) =
      (p ++ "'x".toList) ++ ' ' :: (field ++ ' ' :: ("y'".toList ++ r)) := by
    simp [fillText, fill]
  have hsolid : ∀ c ∈ "y'".toList ++ joined r, isSpace c = false := by
    intro c hc
    rcases List.mem_append.mp hc with hc | hc
    · exact Str.forall_mem_of_all (p := fun c => isSpace c = false) (by decide) c hc
    · simpa using mem_takeWhile_imp hc
  rw [htext, fields_append_cons hspace, fields_append_cons hspace,
    fields_solid h.1 fun c hc => (h.2 c hc).1, fields_append_behind "y'".toList,
    fields_solid (by simp) hsolid]
  rfl

/-- What is joined behind the value sets none of the keys. -/
theorem not_setsKey_joined {keys : List Str} (hkeys : keys.all fun k => k.head? ≠ some 'y')
    (s : Str) : ¬ SetsKey keys ("y'".toList ++ s) := by
  rintro ⟨-, hm⟩
  have := List.all_eq_true.mp hkeys _ hm
  simp at this

/-- A field that sets a key of its own. -/
theorem lastValue_setting {keys : List Str} {key : Str} (hkey : '=' ∉ key) (v : Str) :
    lastValue keys [Conninfo.setting key v] =
      if key.map Char.toLower ∈ keys then some v else none := by
  have hplain : ∀ c ∈ key, decide (c ≠ '=') = true := fun c hc =>
    decide_eq_true fun he => hkey (he ▸ hc)
  have htake : (Conninfo.setting key v).takeWhile (· ≠ '=') = key := by
    rw [Conninfo.setting, List.takeWhile_append_of_pos hplain]
    simp
  have hdrop : (Conninfo.setting key v).dropWhile (· ≠ '=') = '=' :: v := by
    rw [Conninfo.setting, List.dropWhile_append_of_pos hplain]
    simp
  have hmem : '=' ∈ Conninfo.setting key v := by simp [Conninfo.setting]
  split
  · rename_i h
    rw [lastValue_singleton ⟨hmem, by rw [htake]; exact h⟩, hdrop]
    rfl
  · rename_i h
    exact lastValue_singleton_of_not fun hs => h (by rw [← htake]; exact hs.2)

/-- The last values, with the field in the value. -/
theorem lastValue_fill {keys : List Str} (hkeys : keys.all fun k => k.head? ≠ some 'y')
    (A : List Str) (f s : Str) (T : List Str) :
    lastValue keys (A ++ (f :: ("y'".toList ++ s) :: T)) =
      (lastValue keys T).or ((lastValue keys [f]).or (lastValue keys A)) := by
  rw [lastValue_append, lastValue_cons, lastValue_cons keys _ T,
    lastValue_singleton_of_not (not_setsKey_joined hkeys s), Option.or_none, Option.or_assoc]

theorem prefix_append_cons_iff {c : Char} {pre : Str} (h : c ∉ pre) (a b : Str) :
    pre <+: a ++ c :: b ↔ pre <+: a := by
  refine ⟨fun hpre => ?_, fun hpre => hpre.trans (List.prefix_append a _)⟩
  rcases Nat.le_total pre.length a.length with hle | hle
  · exact List.prefix_of_prefix_length_le hpre (List.prefix_append a _) hle
  · have hlong : a <+: pre := List.prefix_of_prefix_length_le (List.prefix_append a _) hpre hle
    obtain ⟨u, rfl⟩ := hlong
    cases u with
    | nil => rw [List.append_nil]
    | cons d u =>
        obtain ⟨t, ht⟩ := hpre
        rw [List.append_assoc, List.append_cancel_left_eq] at ht
        obtain ⟨rfl, -⟩ := List.cons.inj ht
        exact absurd (List.mem_append_right a List.mem_cons_self) h

/-- Whether a string begins as a URL is decided before its first equals sign. -/
theorem isPgURL_trimSpace_append (h : '=' ∈ p) (y y' : Str) :
    isPgURL (trimSpace (p ++ y)) = isPgURL (trimSpace (p ++ y')) := by
  obtain ⟨a, b, -, rfl⟩ := Url.exists_cut h
  have hspace : isSpace '=' = false := by decide
  have hside : ∀ t, isPgURL (trimSpace (a ++ '=' :: b ++ t)) =
      isPgURL (a.dropWhile isSpace) := by
    intro t
    rw [List.append_assoc, List.cons_append, trimSpace_append_cons hspace]
    have hpre : ∀ (pre z : Str), '=' ∉ pre → Str.hasPrefix (a.dropWhile isSpace ++ '=' :: z) pre =
        Str.hasPrefix (a.dropWhile isSpace) pre := by
      intro pre z hno
      rw [Bool.eq_iff_iff, Str.hasPrefix, Str.hasPrefix, List.isPrefixOf_iff_prefix,
        List.isPrefixOf_iff_prefix, prefix_append_cons_iff hno]
    rw [isPgURL, isPgURL, hpre _ _ (by decide), hpre _ _ (by decide)]
  rw [hside, hside]

/-- Another value in the place of a credential leaves a connection string. -/
theorem IsDsn.replace {keyword : Str → Prop} {v' : Str} (h : IsDsn keyword (p ++ (v ++ r)))
    (hc : CredentialAt p v r) (hc' : CredentialAt p v' r) : IsDsn keyword (p ++ (v' ++ r)) := by
  obtain ⟨⟨m, hm, hkw⟩, hurl⟩ := h
  obtain ⟨l, k, w, hrun, hk, hv⟩ := hc
  obtain ⟨l', k', w', hrun', -, hv'⟩ := hc'
  obtain ⟨rfl, hstate⟩ := Prod.mk.inj (Option.some.inj (hrun.symm.trans hrun'))
  obtain rfl := Conninfo.State.equals.inj hstate
  rw [Conninfo.parse, Conninfo.parseFrom_append, hrun, Option.bind_some, hv.parseFrom,
    Option.map_map] at hm
  obtain ⟨n, hn, rfl⟩ := Option.map_eq_some_iff.mp hm
  refine ⟨⟨l ++ (k, w') :: n, ?_, fun e he => ?_⟩, ?_⟩
  · rw [Conninfo.parse, Conninfo.parseFrom_append, hrun, Option.bind_some, hv'.parseFrom,
      Option.map_map, hn]
    rfl
  · rcases List.mem_append.mp he with he | he
    · exact hkw e (List.mem_append_left _ he)
    · rcases List.mem_cons.mp he with rfl | he
      · exact hkw (k, w) (List.mem_append_right _ List.mem_cons_self)
      · exact hkw e (List.mem_append_right _ (List.mem_cons_of_mem _ he))
  · rw [isPgURL_trimSpace_append (Conninfo.mem_of_run_equals hrun) _ (v ++ r)]
    exact hurl

/-- What is shown with a field in the value: `A` stands before it, `s` is joined to the value, and
    `T` stands behind. -/
def filled (A : List Str) (s : Str) (T : List Str) (field : Str) : Str :=
  dsnInfo (A ++ (field :: ("y'".toList ++ s) :: T))

section Filled

variable {A T : List Str} {s : Str}

theorem filled_eq (A : List Str) (s : Str) (T : List Str) (field : Str) : filled A s T field =
    joinInfo (dsnHostPort
      (((lastValue hostKeys T).or ((lastValue hostKeys [field]).or (lastValue hostKeys A))).getD [])
      (((lastValue portKeys T).or ((lastValue portKeys [field]).or (lastValue portKeys A))).getD []))
      (((lastValue dbKeys T).or ((lastValue dbKeys [field]).or (lastValue dbKeys A))).getD []) := by
  rw [filled, dsnInfo, lastValue_fill (by decide), lastValue_fill (by decide),
    lastValue_fill (by decide)]

theorem lastValue_of_mem {keys : List Str} {key : Str} (hkey : '=' ∉ key)
    (h : key.map Char.toLower ∈ keys) (c : Char) :
    lastValue keys [Conninfo.setting key [c]] = some [c] :=
  (lastValue_setting hkey [c]).trans (if_pos h)

theorem lastValue_of_not_mem {keys : List Str} {key : Str} (hkey : '=' ∉ key)
    (h : key.map Char.toLower ∉ keys) (c : Char) :
    lastValue keys [Conninfo.setting key [c]] = none :=
  (lastValue_setting hkey [c]).trans (if_neg h)

/-- Two hosts show, unless a host is set again. -/
theorem host_of_filled (h : filled A s T (Conninfo.setting hostKey ['a']) =
    filled A s T (Conninfo.setting hostKey ['b'])) : lastValue hostKeys T ≠ none := by
  intro hnone
  have hval := @lastValue_of_mem hostKeys hostKey (by decide) (by decide)
  have hport := @lastValue_of_not_mem portKeys hostKey (by decide) (by decide)
  have hdb := @lastValue_of_not_mem dbKeys hostKey (by decide) (by decide)
  simp only [filled_eq, hval, hport, hdb, hnone, Option.none_or, Option.some_or,
    Option.getD_some] at h
  have := (dsnHostPort_inj h rfl).1
  exact absurd this (by decide)

/-- Two databases show, unless a database is set again. -/
theorem db_of_filled (h : filled A s T (Conninfo.setting "dbname".toList ['a']) =
    filled A s T (Conninfo.setting "dbname".toList ['b'])) : lastValue dbKeys T ≠ none := by
  intro hnone
  have hval := @lastValue_of_mem dbKeys "dbname".toList (by decide) (by decide)
  have hhost := @lastValue_of_not_mem hostKeys "dbname".toList (by decide) (by decide)
  have hport := @lastValue_of_not_mem portKeys "dbname".toList (by decide) (by decide)
  simp only [filled_eq, hval, hhost, hport, hnone, Option.none_or, Option.some_or,
    Option.getD_some] at h
  have := (joinInfo_inj h rfl).2
  exact absurd this (by decide)

/-- Two ports show behind a host, unless a port is set again. -/
theorem port_of_filled (hhost : lastValue hostKeys T ≠ none) (hdb : lastValue dbKeys T ≠ none)
    (h : filled A s T (Conninfo.setting portKey ['a']) =
      filled A s T (Conninfo.setting portKey ['b'])) :
    lastValue hostKeys T = some [] ∨ lastValue portKeys T ≠ none := by
  by_contra hport
  rw [not_or, not_not] at hport
  obtain ⟨host, hh⟩ := Option.ne_none_iff_exists'.mp hhost
  obtain ⟨db, hd⟩ := Option.ne_none_iff_exists'.mp hdb
  have hne : host ≠ [] := fun hnil => hport.1 (by rw [hh, hnil])
  have hval := @lastValue_of_mem portKeys portKey (by decide) (by decide)
  have hshown : ∀ c : Char, dsnHostPort host [c] = host ++ [':'] ++ [c] := fun c =>
    if_pos ⟨hne, List.cons_ne_nil c []⟩
  simp only [filled_eq, hval, hh, hd, hport.2, Option.none_or, Option.some_or, Option.getD_some,
    hshown] at h
  have := List.append_cancel_left (joinInfo_inj h (by simp)).1
  exact absurd this (by decide)

end Filled

/-- **Where no variant shows, the credentials are shielded**: a value with a host, a port or a
    database in it shows, unless that is set again. -/
theorem shielded_of_dsnInfo {keyword : Str → Prop} (hdsn : IsDsn keyword cs)
    (h : ∀ cs', IsDsn keyword cs' → DsnVariant cs cs' →
      dsnInfo (fields cs') = dsnInfo (fields cs)) : Shielded cs := by
  rintro p v r rfl hcred
  have hone : ∀ f, Solid f → filled (fields (p ++ "'x".toList)) (joined r) (behind r) f =
      dsnInfo (fields (p ++ (v ++ r))) := by
    intro f hf
    rw [filled, ← fields_fill hf]
    exact h _ (hdsn.replace hcred (hcred.fill hf)) (.vary hcred (hcred.fill hf) (.same r))
  have hsame : ∀ f g, Solid f → Solid g →
      filled (fields (p ++ "'x".toList)) (joined r) (behind r) f =
        filled (fields (p ++ "'x".toList)) (joined r) (behind r) g := fun f g hf hg =>
    (hone f hf).trans (hone g hg).symm
  have hhost := host_of_filled (hsame _ _ (solid_of_all (by decide) (by decide))
    (solid_of_all (by decide) (by decide)))
  have hdb := db_of_filled (hsame _ _ (solid_of_all (by decide) (by decide))
    (solid_of_all (by decide) (by decide)))
  exact ⟨hhost, hdb, port_of_filled hhost hdb (hsame _ _
    (solid_of_all (by decide) (by decide)) (solid_of_all (by decide) (by decide)))⟩

end Dsn

/-! ## 5. URLs and bare hosts -/

def pgSchemes : List Str := ["postgres".toList, "postgresql".toList]

def mongoSchemes : List Str := ["mongodb".toList, "mongodb+srv".toList]

/-- The same URL of one of the schemes, but for its user and password. -/
def UrlVariant (schemes : List Str) (v v' : Str) : Prop :=
  ∃ scheme ∈ schemes, ∃ ui ui' rest,
    v = scheme ++ ':' :: '/' :: '/' :: (ui ++ '@' :: rest) ∧
    v' = scheme ++ ':' :: '/' :: '/' :: (ui' ++ '@' :: rest) ∧
    (readUserinfo ui).isSome = true ∧ (readUserinfo ui').isSome = true ∧ '@' ∉ hostText rest

/-- The same bare host, but for what stands before its last `@`. -/
def BareVariant (v v' : Str) : Prop :=
  ∃ cred cred' rest, v = cred ++ '@' :: rest ∧ v' = cred' ++ '@' :: rest ∧ '@' ∉ rest ∧
    isMongoURL (trimSpace v) = false ∧ isMongoURL (trimSpace v') = false

section Urls

variable (readHost : Str → Option Str) (text : Url.Octets → Str)

/-- `url.Parse`, as far as a summary needs it. `text` is the text of the bytes of a path. -/
def urlInfo (cs : Str) : Option ParsedURL :=
  (Url.parse (readAuthority readHost) cs).map fun u =>
    ⟨urlHost u, text ((Url.unescape u.rawPath).getD [])⟩

variable {readHost text} {schemes : List Str} {v v' : Str}

/-- A text in which a scheme begins with a letter. -/
def IsScheme (scheme : Str) : Prop :=
  (∃ c s, scheme = c :: s ∧ Url.isLetter c = true ∧ isSpace c = false) ∧
    ∀ c ∈ scheme, Url.isSchemeChar c = true

theorem isScheme_pg : ∀ scheme ∈ pgSchemes, IsScheme scheme := by
  intro scheme h
  rcases List.mem_cons.mp h with rfl | h
  · exact ⟨⟨'p', _, rfl, by decide, by decide⟩, Str.forall_mem_of_all (by decide)⟩
  · obtain rfl := List.mem_singleton.mp h
    exact ⟨⟨'p', _, rfl, by decide, by decide⟩, Str.forall_mem_of_all (by decide)⟩

theorem isScheme_mongo : ∀ scheme ∈ mongoSchemes, IsScheme scheme := by
  intro scheme h
  rcases List.mem_cons.mp h with rfl | h
  · exact ⟨⟨'m', _, rfl, by decide, by decide⟩, Str.forall_mem_of_all (by decide)⟩
  · obtain rfl := List.mem_singleton.mp h
    exact ⟨⟨'m', _, rfl, by decide, by decide⟩, Str.forall_mem_of_all (by decide)⟩

/-- White space is taken off such a URL only behind its user. -/
theorem trimSpace_url {scheme : Str} (h : IsScheme scheme) (ui rest : Str) :
    trimSpace (scheme ++ ':' :: '/' :: '/' :: (ui ++ '@' :: rest)) =
      scheme ++ ':' :: '/' :: '/' :: (ui ++ '@' :: trimRight rest) := by
  have hat : isSpace '@' = false := by decide
  obtain ⟨⟨c, s, rfl, -, hc⟩, -⟩ := h
  have htext : ∀ t : Str, c :: s ++ ':' :: '/' :: '/' :: (ui ++ '@' :: t) =
      (c :: (s ++ ':' :: '/' :: '/' :: ui)) ++ '@' :: t := fun t => by simp
  rw [htext rest, trimSpace_append_cons hat,
    List.dropWhile_cons_of_neg (by rw [hc]; exact Bool.false_ne_true), htext]

theorem trimSpace_url_ne_nil {scheme : Str} (h : IsScheme scheme) (ui rest : Str) :
    trimSpace (scheme ++ ':' :: '/' :: '/' :: (ui ++ '@' :: rest)) ≠ [] := by
  rw [trimSpace_url h]
  simp

/-- **Another user changes nothing of a URL that is shown.** -/
theorem urlInfo_variant (hschemes : ∀ scheme ∈ schemes, IsScheme scheme)
    (h : UrlVariant schemes v v') :
    urlInfo readHost text (trimSpace v') = urlInfo readHost text (trimSpace v) := by
  obtain ⟨scheme, hmem, ui, ui', rest, rfl, rfl, hui, hui', hat⟩ := h
  obtain ⟨x, hx⟩ := Option.isSome_iff_exists.mp hui
  obtain ⟨x', hx'⟩ := Option.isSome_iff_exists.mp hui'
  obtain ⟨⟨c, s, hcs, hletter, hspace⟩, hchars⟩ := hschemes scheme hmem
  have hat' : '@' ∉ hostText (trimRight rest) := fun hm =>
    hat ((NetUrl.prefix_hostText (prefix_trimRight rest)).subset hm)
  have hsame : ∀ (y : NetUrl.Userinfo) (u : Url.URL Authority),
      urlHost (NetUrl.withUser y u) = urlHost u := by
    intro y u
    rw [urlHost, urlHost, NetUrl.withUser, Option.map_map]
    rfl
  rw [trimSpace_url ⟨⟨c, s, hcs, hletter, hspace⟩, hchars⟩,
    trimSpace_url ⟨⟨c, s, hcs, hletter, hspace⟩, hchars⟩, urlInfo, urlInfo,
    NetUrl.parse_userinfo ⟨c, s, hcs, hletter⟩ hchars hx hat',
    NetUrl.parse_userinfo ⟨c, s, hcs, hletter⟩ hchars hx' hat', Option.map_map, Option.map_map]
  congr 1
  funext u
  simp only [Function.comp_apply, hsame]
  rfl

theorem hasPrefix_scheme {scheme : Str} (h : IsScheme scheme) (ui rest : Str) :
    Str.hasPrefix (trimSpace (scheme ++ ':' :: '/' :: '/' :: (ui ++ '@' :: rest)))
      (scheme ++ [':', '/', '/']) = true := by
  rw [trimSpace_url h, Str.hasPrefix_iff]
  exact ⟨ui ++ '@' :: trimRight rest, by simp⟩

theorem isPgURL_of_scheme {scheme : Str} (h : scheme ∈ pgSchemes) (ui rest : Str) :
    isPgURL (trimSpace (scheme ++ ':' :: '/' :: '/' :: (ui ++ '@' :: rest))) = true := by
  have hpre := hasPrefix_scheme (isScheme_pg scheme h) ui rest
  rw [isPgURL, Bool.or_eq_true]
  rcases List.mem_cons.mp h with rfl | h
  · exact .inl hpre
  · obtain rfl := List.mem_singleton.mp h
    exact .inr hpre

theorem isMongoURL_of_scheme {scheme : Str} (h : scheme ∈ mongoSchemes) (ui rest : Str) :
    isMongoURL (trimSpace (scheme ++ ':' :: '/' :: '/' :: (ui ++ '@' :: rest))) = true := by
  have hpre := hasPrefix_scheme (isScheme_mongo scheme h) ui rest
  rw [isMongoURL, Bool.or_eq_true]
  rcases List.mem_cons.mp h with rfl | h
  · exact .inl hpre
  · obtain rfl := List.mem_singleton.mp h
    exact .inr hpre

/-- **The user of a PostgreSQL URL is not shown.** -/
theorem pgConnInfo_of_url (h : UrlVariant pgSchemes v v') :
    pgConnInfo (urlInfo readHost text) v' = pgConnInfo (urlInfo readHost text) v := by
  have hinfo : urlInfo readHost text (trimSpace v') = urlInfo readHost text (trimSpace v) :=
    urlInfo_variant isScheme_pg h
  obtain ⟨scheme, hmem, ui, ui', rest, rfl, rfl, -⟩ := h
  have hnil := trimSpace_url_ne_nil (isScheme_pg scheme hmem)
  unfold pgConnInfo
  dsimp only
  rw [if_neg (hnil ui' rest), if_neg (hnil ui rest), if_pos (isPgURL_of_scheme hmem ui' rest),
    if_pos (isPgURL_of_scheme hmem ui rest), hinfo]

theorem afterLastAt_append_cons (a : Str) {b : Str} (h : '@' ∉ b) :
    afterLastAt (a ++ '@' :: b) = b := by
  have hplain : ∀ c ∈ b.reverse, decide (c ≠ '@') = true := fun c hc =>
    decide_eq_true fun he => h (he ▸ List.mem_reverse.mp hc)
  have hrev : (a ++ '@' :: b).reverse = b.reverse ++ '@' :: a.reverse := by simp
  rw [afterLastAt, if_pos (by simp), hrev, List.takeWhile_append_of_pos hplain]
  simp

theorem trimSpace_ne_nil_of_at {a b : Str} : trimSpace (a ++ '@' :: b) ≠ [] := by
  rw [trimSpace_append_cons (by decide)]
  simp

/-- **The user of a MongoDB host is not shown**, be it a URL or bare. -/
theorem mongoConnInfo_of_variant (db : Str) (h : UrlVariant mongoSchemes v v' ∨ BareVariant v v') :
    mongoConnInfo (urlInfo readHost text) v' db = mongoConnInfo (urlInfo readHost text) v db := by
  rcases h with h | ⟨cred, cred', rest, rfl, rfl, hat, hurl, hurl'⟩
  · have hinfo : urlInfo readHost text (trimSpace v') = urlInfo readHost text (trimSpace v) :=
      urlInfo_variant isScheme_mongo h
    obtain ⟨scheme, hmem, ui, ui', rest, rfl, rfl, -⟩ := h
    have hnil := trimSpace_url_ne_nil (isScheme_mongo scheme hmem)
    unfold mongoConnInfo
    dsimp only
    rw [if_neg (hnil ui' rest), if_neg (hnil ui rest), if_pos (isMongoURL_of_scheme hmem ui' rest),
      if_pos (isMongoURL_of_scheme hmem ui rest), hinfo]
  · have hspace : isSpace '@' = false := by decide
    have hafter : ∀ cred : Str, afterLastAt (trimSpace (cred ++ '@' :: rest)) =
        trimRight rest := by
      intro cred
      rw [trimSpace_append_cons hspace]
      exact afterLastAt_append_cons _ fun hm => hat ((prefix_trimRight rest).subset hm)
    unfold mongoConnInfo
    dsimp only
    rw [if_neg trimSpace_ne_nil_of_at, if_neg trimSpace_ne_nil_of_at, hurl, hurl',
      if_neg Bool.false_ne_true, if_neg Bool.false_ne_true, hafter, hafter]

end Urls

/-! ## 6. Components -/

/-- The same value, or one that differs in credentials. Properties that are neither addresses nor
    names of data hold credentials alone. -/
def FieldVariant (keyword : Str → Prop) (type : StoreType) (k : MetaKey) (v v' : Str) : Prop :=
  v' = v ∨
    match type, k with
    | .postgresql, .connectionString | .postgres, .connectionString =>
        UrlVariant pgSchemes v v' ∨ (IsDsn keyword v ∧ IsDsn keyword v' ∧ DsnVariant v v')
    | .mongodb, .host | .mongodb, .server => UrlVariant mongoSchemes v v' ∨ BareVariant v v'
    | _, .other _ => True
    | _, _ => False

/-- The same component, but for its credentials. -/
structure CredVariant (keyword : Str → Prop) (c c' : Component) : Prop where
  name : c'.name = c.name
  type : c'.type = c.type
  field : ∀ k, FieldVariant keyword c.type k (c.metadata k) (c'.metadata k)

section Components

variable {keyword : Str → Prop} {readHost : Str → Option Str} {text : Url.Octets → Str}
  {c c' : Component}

theorem mongoHostField_variant (h : CredVariant keyword c c') (htype : c.type = .mongodb) :
    mongoHostField c' = mongoHostField c ∨
      UrlVariant mongoSchemes (mongoHostField c) (mongoHostField c') ∨
      BareVariant (mongoHostField c) (mongoHostField c') := by
  have hhost := h.field .host
  have hserver := h.field .server
  rw [htype] at hhost hserver
  rcases hhost with hsame | hvary
  · by_cases hblank : trimSpace (c.metadata .host) = []
    · rw [mongoHostField, mongoHostField, hsame, if_pos hblank, if_pos hblank]
      exact hserver
    · rw [mongoHostField, mongoHostField, hsame, if_neg hblank, if_neg hblank]
      exact .inl rfl
  · have hfilled : trimSpace (c.metadata .host) ≠ [] ∧ trimSpace (c'.metadata .host) ≠ [] := by
      rcases hvary with ⟨scheme, hmem, ui, ui', rest, hv, hv', -⟩ | ⟨cred, cred', rest, hv, hv', -⟩
      · rw [hv, hv']
        exact ⟨trimSpace_url_ne_nil (isScheme_mongo scheme hmem) ui rest,
          trimSpace_url_ne_nil (isScheme_mongo scheme hmem) ui' rest⟩
      · rw [hv, hv']
        exact ⟨trimSpace_ne_nil_of_at, trimSpace_ne_nil_of_at⟩
    rw [mongoHostField, mongoHostField, if_neg hfilled.1, if_neg hfilled.2]
    exact .inr hvary

/-- A connection string's variants are shown alike, if its credentials are shielded. -/
theorem pgConnInfo_variant {v v' : Str} (hs : IsDsn keyword v → Shielded v)
    (h : v' = v ∨ UrlVariant pgSchemes v v' ∨
      (IsDsn keyword v ∧ IsDsn keyword v' ∧ DsnVariant v v')) :
    pgConnInfo (urlInfo readHost text) v' = pgConnInfo (urlInfo readHost text) v := by
  rcases h with rfl | hurl | ⟨hdsn, hdsn', hvary⟩
  · rfl
  · exact pgConnInfo_of_url hurl
  · rw [pgConnInfo_of_not_url hdsn.2, pgConnInfo_of_not_url hdsn'.2,
      dsnInfo_of_shielded (hs hdsn) hvary]

/-- **Credentials are not shown**, if those of a connection string are shielded. -/
theorem connInfo_of_credVariant (h : CredVariant keyword c c')
    (hs : c.type = .postgresql ∨ c.type = .postgres →
      IsDsn keyword (c.metadata .connectionString) → Shielded (c.metadata .connectionString)) :
    connInfo (urlInfo readHost text) c' = connInfo (urlInfo readHost text) c := by
  unfold connInfo
  rw [h.type]
  cases htype : c.type with
  | redis =>
      have hfield := h.field .redisHost
      rw [htype] at hfield
      dsimp only
      rw [hfield.resolve_right id]
  | sqlite =>
      have hfield := h.field .connectionString
      rw [htype] at hfield
      dsimp only
      rw [hfield.resolve_right id]
  | postgresql =>
      have hfield := h.field .connectionString
      rw [htype] at hfield
      exact pgConnInfo_variant (hs (.inl htype)) hfield
  | postgres =>
      have hfield := h.field .connectionString
      rw [htype] at hfield
      exact pgConnInfo_variant (hs (.inr htype)) hfield
  | mongodb =>
      have hdb := h.field .databaseName
      rw [htype] at hdb
      dsimp only
      rw [hdb.resolve_right id]
      rcases mongoHostField_variant h htype with hsame | hvary
      · rw [hsame]
      · exact mongoConnInfo_of_variant _ hvary
  | other raw => rfl

/-- Another connection string, everything else the same. -/
def Component.withConnectionString (c : Component) (cs : Str) : Component :=
  { c with metadata := fun k => if k = .connectionString then cs else c.metadata k }

theorem credVariant_withConnectionString (htype : c.type = .postgresql ∨ c.type = .postgres)
    {cs' : Str} (hdsn : IsDsn keyword (c.metadata .connectionString)) (hdsn' : IsDsn keyword cs')
    (h : DsnVariant (c.metadata .connectionString) cs') :
    CredVariant keyword c (c.withConnectionString cs') := by
  refine ⟨rfl, rfl, fun k => ?_⟩
  by_cases hk : k = .connectionString
  · subst hk
    have hval : (c.withConnectionString cs').metadata .connectionString = cs' := rfl
    rw [hval]
    rcases htype with ht | ht
    · rw [ht]
      exact .inr (.inr ⟨hdsn, hdsn', h⟩)
    · rw [ht]
      exact .inr (.inr ⟨hdsn, hdsn', h⟩)
  · exact .inl (if_neg hk)

theorem identity_eq {parseURL : Str → Option ParsedURL} (hname : c'.name = c.name)
    (htype : c'.type = c.type) (h : connInfo parseURL c' = connInfo parseURL c) :
    identity parseURL (some c') = identity parseURL (some c) := by
  rw [identity, identity, hname, htype, h]

variable (keyword readHost text c) in
/-- **Summary and identity of a component do not depend on its credentials** exactly if, where it
    has a connection string of settings, the credentials in it are shielded. -/
theorem connInfo_independent_iff :
    (∀ c', CredVariant keyword c c' →
        connInfo (urlInfo readHost text) c' = connInfo (urlInfo readHost text) c ∧
          identity (urlInfo readHost text) (some c') =
            identity (urlInfo readHost text) (some c)) ↔
      (c.type = .postgresql ∨ c.type = .postgres →
        IsDsn keyword (c.metadata .connectionString) →
          Shielded (c.metadata .connectionString)) := by
  constructor
  · intro h htype hdsn
    refine shielded_of_dsnInfo hdsn fun cs' hdsn' hvary => ?_
    have hinfo := (h _ (credVariant_withConnectionString htype hdsn hdsn' hvary)).1
    have hval : (c.withConnectionString cs').metadata .connectionString = cs' := rfl
    have hshown : ∀ s, isPgURL (trimSpace s) = false →
        pgConnInfo (urlInfo readHost text) s = dsnInfo (fields s) := fun _ => pgConnInfo_of_not_url
    rw [← hshown _ hdsn.2, ← hshown _ hdsn'.2]
    unfold connInfo at hinfo
    rw [hval] at hinfo
    have hsame : (c.withConnectionString cs').type = c.type := rfl
    rw [hsame] at hinfo
    rcases htype with ht | ht
    · rw [ht] at hinfo
      exact hinfo
    · rw [ht] at hinfo
      exact hinfo
  · intro hs c' h
    have hinfo : connInfo (urlInfo readHost text) c' = connInfo (urlInfo readHost text) c :=
      connInfo_of_credVariant h hs
    exact ⟨hinfo, identity_eq h.name h.type hinfo⟩

/-- A PostgreSQL component. -/
def pgComponent (cs : Str) : Component where
  name := "statestore".toList
  type := .postgresql
  metadata
    | .connectionString => cs
    | _ => []

theorem credVariant_pgComponent {cs cs' : Str} (hdsn : IsDsn keyword cs)
    (hdsn' : IsDsn keyword cs') (h : DsnVariant cs cs') :
    CredVariant keyword (pgComponent cs) (pgComponent cs') := by
  refine ⟨rfl, rfl, fun k => ?_⟩
  cases k with
  | connectionString => exact .inr (.inr ⟨hdsn, hdsn', h⟩)
  | _ => exact .inl rfl

/-- A password with a host in it shows in the summary. -/
theorem password_shows :
    CredVariant (· ∈ [hostKey, passwordKey]) (pgComponent "host=db password='a b'".toList)
        (pgComponent "host=db password='a host=secret'".toList) ∧
      connInfo (urlInfo some fun _ => []) (pgComponent "host=db password='a b'".toList) =
        "db".toList ∧
      connInfo (urlInfo some fun _ => []) (pgComponent "host=db password='a host=secret'".toList) =
        "secret'".toList := by
  have hdsn : IsDsn (· ∈ [hostKey, passwordKey]) "host=db password='a b'".toList :=
    ⟨⟨[(hostKey, "db".toList), (passwordKey, "a b".toList)], by decide, by decide⟩, by decide⟩
  have hdsn' : IsDsn (· ∈ [hostKey, passwordKey]) "host=db password='a host=secret'".toList :=
    ⟨⟨[(hostKey, "db".toList), (passwordKey, "a host=secret".toList)], by decide, by decide⟩,
      by decide⟩
  have hcred : ∀ body : Str, (∀ c ∈ body, c ≠ '\'' ∧ c ≠ '\\') →
      CredentialAt "host=db password=".toList ('\'' :: (body ++ ['\''])) [] := fun body h =>
    ⟨[(hostKey, "db".toList)], passwordKey, body, by decide, .inr rfl,
      .quoted (Conninfo.run_quoted h)⟩
  have hvary : DsnVariant "host=db password='a b'".toList
      "host=db password='a host=secret'".toList := by
    have htext : "host=db password='a b'".toList =
        "host=db password=".toList ++ ('\'' :: ("a b".toList ++ ['\'']) ++ []) := by decide
    have htext' : "host=db password='a host=secret'".toList =
        "host=db password=".toList ++ ('\'' :: ("a host=secret".toList ++ ['\'']) ++ []) := by
      decide
    rw [htext, htext']
    exact .vary (hcred _ (Str.forall_mem_of_all (by decide)))
      (hcred _ (Str.forall_mem_of_all (by decide))) (.same [])
  exact ⟨credVariant_pgComponent hdsn hdsn' hvary, by decide, by decide⟩

end Components

end DevDashboard.StateStore
