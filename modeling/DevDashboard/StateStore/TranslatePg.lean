/-
  File:      DevDashboard/StateStore/TranslatePg.lean
  Subject:   WHAT A TRANSLATED CONNECTION STRING SAYS (`translatePGConnString` of
             `pkg/statestore/translate.go`).

  A connection string is read as libpq reads it, before and after. The source cuts it at white
  space instead, finds `host=` and `port=` among the fields, and joins the fields with single
  blanks. `Shape` says which fields it finds, and what stands before, between and behind them.

  * `translate_of_shape` -- what the source makes of a string of a shape;
  * `dsn_right_iff` -- when only the endpoint changes, said of the fields: exactly if both are read
    as settings between whole settings, with the blanks between them squeezed, and mean what the
    source takes them for (`Rewritable`);
  * `url_right` -- **of a URL only the host and the port change**, always.
-/
import DevDashboard.Lib.Conninfo
import DevDashboard.Lib.NetUrl
import DevDashboard.StateStore.Translate

namespace DevDashboard.StateStore

open Lib
open Lib.Conninfo (Setting Word Words Slots setting join last)
open Lib.NetUrl (Authority HostName PortText SameButHost readAuthority splitHostPort)

/-! ## 1. The source -/

section Source

variable (readHost : Str → Option Str)

/-- `Host` of a URL. -/
def urlHost (u : Url.URL Authority) : Str := ((u.authority.map (·.host)).getD [])

/-- `url.Parse`, as far as it is used here. -/
def netURL (cs : Str) : Option NetURL :=
  (Url.parse (readAuthority readHost) cs).map fun u =>
    { hostname := (splitHostPort (urlHost u)).1
      port := (splitHostPort (urlHost u)).2
      withHost := fun t => NetUrl.string u ⟨u.authority.bind (·.user), t⟩ }

/-- `translatePGConnString`; `none` where nothing was rewritten. -/
def translatePGConnString (hosts : HostLookup) (cs : Str) : Option Str :=
  (pgEndpoint (netURL readHost) cs).bind fun e => (hosts e.host e.port).bind e.put

/-- It is what `Translate` does to a PostgreSQL component. -/
theorem translateAddress_postgresql (hosts : HostLookup) (paths : PathLookup) (cs : Str) :
    translateAddress (netURL readHost) hosts paths .postgresql cs =
      translatePGConnString readHost hosts cs := rfl

end Source

/-! ## 2. The fields that are found -/

def hostKey : Str := "host".toList

def portKey : Str := "port".toList

theorem word_hostKey : Word hostKey := ⟨by decide, Str.forall_mem_of_all (by decide)⟩

theorem word_portKey : Word portKey := ⟨by decide, Str.forall_mem_of_all (by decide)⟩

/-- A field `host=…`. -/
def IsHost (field : Str) : Prop := ∃ h, field = setting hostKey h

/-- A field `port=…` with a number. -/
def IsPort (field : Str) : Prop := ∃ v n, field = setting portKey v ∧ parseInt v = some n

instance : DecidablePred IsHost := fun field =>
  decidable_of_iff (setting hostKey [] <+: field)
    ⟨fun ⟨h, he⟩ => ⟨h, by rw [← he]; simp [setting]⟩, fun ⟨h, he⟩ => ⟨h, by rw [he]; simp [setting]⟩⟩

instance : DecidablePred IsPort := fun field =>
  decidable_of_iff (field = setting portKey (field.drop 5) ∧ parseInt (field.drop 5) ≠ none) <| by
    constructor
    · rintro ⟨he, hn⟩
      obtain ⟨n, hn⟩ := Option.ne_none_iff_exists'.mp hn
      exact ⟨_, n, he, hn⟩
    · rintro ⟨v, n, rfl, hn⟩
      have hdrop : (setting portKey v).drop 5 = v := rfl
      rw [hdrop, hn]
      exact ⟨rfl, by simp⟩

theorem setting_ne (h v : Str) : setting hostKey h ≠ setting portKey v := by
  intro he
  have := (List.cons.inj he).1
  exact absurd this (by decide)

theorem not_isHost_port (v : Str) : ¬ IsHost (setting portKey v) := fun ⟨h, he⟩ =>
  setting_ne h v he.symm

theorem not_isPort_host (h : Str) : ¬ IsPort (setting hostKey h) := fun ⟨v, _, he, _⟩ =>
  setting_ne h v he

section Scan

variable {s : DsnScan} {i : Nat} {field h v : Str} {n : Int} {fs L R : List Str}

theorem step_host : s.step i (setting hostKey h) = { s with hostIdx := some i, host := h } := by
  have hcut : Url.cut '=' (setting hostKey h) = (hostKey, some h) :=
    Url.cut_append_cons (by decide) h
  rw [DsnScan.step, hcut]
  rfl

theorem step_port (hv : parseInt v = some n) :
    s.step i (setting portKey v) = { s with portIdx := some i, port := n } := by
  have hcut : Url.cut '=' (setting portKey v) = (portKey, some v) :=
    Url.cut_append_cons (by decide) v
  have hne : ¬ portKey = "host".toList := by decide
  rw [DsnScan.step, hcut]
  simp only [hv]
  rw [if_neg hne]
  exact if_pos rfl

/-- A field, taken apart at its first equals sign. -/
theorem eq_setting_of_cut {k w : Str} (h : Url.cut '=' field = (k, some w)) :
    field = setting k w := by
  by_cases hm : '=' ∈ field
  · obtain ⟨a, b, ha, rfl⟩ := Url.exists_cut hm
    rw [Url.cut_append_cons ha] at h
    obtain ⟨rfl, hb⟩ := Prod.mk.inj h
    rw [Option.some.inj hb]
    rfl
  · rw [Url.cut_of_not_mem hm] at h
    cases (Prod.mk.inj h).2

theorem step_of_not_isHost (h : ¬ IsHost field) :
    (s.step i field).hostIdx = s.hostIdx ∧ (s.step i field).host = s.host := by
  unfold DsnScan.step
  split
  · exact ⟨rfl, rfl⟩
  · rename_i k w hcut
    split
    · rename_i hk
      exact absurd ⟨w, by rw [eq_setting_of_cut hcut, hk]; rfl⟩ h
    · split
      · split
        · exact ⟨rfl, rfl⟩
        · exact ⟨rfl, rfl⟩
      · exact ⟨rfl, rfl⟩

theorem step_of_not_isPort (h : ¬ IsPort field) :
    (s.step i field).portIdx = s.portIdx ∧ (s.step i field).port = s.port := by
  unfold DsnScan.step
  split
  · exact ⟨rfl, rfl⟩
  · rename_i k w hcut
    split
    · exact ⟨rfl, rfl⟩
    · split
      · rename_i hk
        split
        · rename_i m hm
          exact absurd ⟨w, m, by rw [eq_setting_of_cut hcut, hk]; rfl, hm⟩ h
        · exact ⟨rfl, rfl⟩
      · exact ⟨rfl, rfl⟩

theorem run_append : s.run i (L ++ R) = (s.run i L).run (i + L.length) R := by
  induction L generalizing s i with
  | nil => rfl
  | cons f L ih =>
      show (s.step i f).run (i + 1) (L ++ R) = _
      rw [ih, List.length_cons, Nat.add_assoc, Nat.add_comm 1]
      rfl

theorem run_of_not_isHost (h : ∀ f ∈ fs, ¬ IsHost f) :
    (s.run i fs).hostIdx = s.hostIdx ∧ (s.run i fs).host = s.host := by
  induction fs generalizing s i with
  | nil => exact ⟨rfl, rfl⟩
  | cons f fs ih =>
      obtain ⟨hf, hfs⟩ := List.forall_mem_cons.mp h
      have hstep := step_of_not_isHost (s := s) (i := i) hf
      have hrest := ih (s := s.step i f) (i := i + 1) hfs
      exact ⟨hrest.1.trans hstep.1, hrest.2.trans hstep.2⟩

theorem run_of_not_isPort (h : ∀ f ∈ fs, ¬ IsPort f) :
    (s.run i fs).portIdx = s.portIdx ∧ (s.run i fs).port = s.port := by
  induction fs generalizing s i with
  | nil => exact ⟨rfl, rfl⟩
  | cons f fs ih =>
      obtain ⟨hf, hfs⟩ := List.forall_mem_cons.mp h
      have hstep := step_of_not_isPort (s := s) (i := i) hf
      have hrest := ih (s := s.step i f) (i := i + 1) hfs
      exact ⟨hrest.1.trans hstep.1, hrest.2.trans hstep.2⟩

/-- The last field `host=…`. -/
theorem run_host (hR : ∀ f ∈ R, ¬ IsHost f) :
    (s.run i (L ++ setting hostKey h :: R)).hostIdx = some (i + L.length) ∧
      (s.run i (L ++ setting hostKey h :: R)).host = h := by
  rw [run_append]
  show (((s.run i L).step _ _).run _ R).hostIdx = _ ∧ (((s.run i L).step _ _).run _ R).host = _
  rw [step_host]
  exact run_of_not_isHost hR

/-- The last field `port=…` with a number. -/
theorem run_port (hv : parseInt v = some n) (hR : ∀ f ∈ R, ¬ IsPort f) :
    (s.run i (L ++ setting portKey v :: R)).portIdx = some (i + L.length) ∧
      (s.run i (L ++ setting portKey v :: R)).port = n := by
  rw [run_append]
  show (((s.run i L).step _ _).run _ R).portIdx = _ ∧ (((s.run i L).step _ _).run _ R).port = _
  rw [step_port hv]
  exact run_of_not_isPort hR

end Scan

/-! ## 3. Shapes -/

/-- The fields of a string, with the last `host` and the last numeric `port` among them, in either
    order (`true`: the host first), and the parts before, between and behind them. Where there is
    no port, its place is at the end. -/
inductive Shape (fs : List Str) : Bool → Str → Int → List Str → List Str → List Str → Prop
  | hostPort {h v : Str} {n : Int} {L₀ L₁ L₂ : List Str}
      (hfs : fs = L₀ ++ setting hostKey h :: (L₁ ++ setting portKey v :: L₂))
      (hv : parseInt v = some n) (hhost : ∀ f ∈ L₁ ++ L₂, ¬ IsHost f)
      (hport : ∀ f ∈ L₂, ¬ IsPort f) : Shape fs true h n L₀ L₁ L₂
  | portHost {h v : Str} {n : Int} {L₀ L₁ L₂ : List Str}
      (hfs : fs = L₀ ++ setting portKey v :: (L₁ ++ setting hostKey h :: L₂))
      (hv : parseInt v = some n) (hhost : ∀ f ∈ L₂, ¬ IsHost f)
      (hport : ∀ f ∈ L₁ ++ L₂, ¬ IsPort f) : Shape fs false h n L₀ L₁ L₂
  | hostOnly {h : Str} {L₀ L₁ : List Str} (hfs : fs = L₀ ++ setting hostKey h :: L₁)
      (hhost : ∀ f ∈ L₁, ¬ IsHost f) (hport : ∀ f ∈ L₀ ++ L₁, ¬ IsPort f) :
      Shape fs true h defaultPgPort L₀ L₁ []

/-- The three parts with a new host and a new port at their places. -/
def assemble (hostFirst : Bool) (L₀ L₁ L₂ : List Str) (h p : Str) : List Str :=
  if hostFirst then L₀ ++ setting hostKey h :: (L₁ ++ setting portKey p :: L₂)
  else L₀ ++ setting portKey p :: (L₁ ++ setting hostKey h :: L₂)

section Shapes

variable {fs L₀ L₁ L₂ : List Str} {hostFirst : Bool} {h : Str} {n : Int}

theorem exists_last {p : Str → Prop} (hp : ∃ f ∈ fs, p f) :
    ∃ L f R, fs = L ++ f :: R ∧ p f ∧ ∀ g ∈ R, ¬ p g := by
  induction fs with
  | nil =>
      obtain ⟨f, hf, -⟩ := hp
      cases hf
  | cons x fs ih =>
      by_cases hrest : ∃ f ∈ fs, p f
      · obtain ⟨L, f, R, rfl, hf, hR⟩ := ih hrest
        exact ⟨x :: L, f, R, rfl, hf, hR⟩
      · obtain ⟨f, hf, hpf⟩ := hp
        rcases List.mem_cons.mp hf with rfl | hf
        · exact ⟨[], f, fs, rfl, hpf, fun g hg hpg => hrest ⟨g, hg, hpg⟩⟩
        · exact absurd ⟨f, hf, hpf⟩ hrest

/-- What holds of one field and of the others. -/
theorem forall_mem_middle {p : Str → Prop} {f : Str} {L R : List Str} :
    (∀ g ∈ L ++ f :: R, p g) ↔ p f ∧ ∀ g ∈ L ++ R, p g := by
  simp only [List.forall_mem_append, List.forall_mem_cons]
  exact and_left_comm

/-- **The fields have no host, or a shape.** -/
theorem shape_cases (fs : List Str) :
    (∀ f ∈ fs, ¬ IsHost f) ∨ ∃ hostFirst h n L₀ L₁ L₂, Shape fs hostFirst h n L₀ L₁ L₂ := by
  by_cases hhost : ∃ f ∈ fs, IsHost f
  · right
    obtain ⟨L, _, R, hfs, ⟨h, rfl⟩, hR⟩ := exists_last hhost
    by_cases hport : ∃ f ∈ fs, IsPort f
    · obtain ⟨P, _, Q, hfs', ⟨v, n, rfl, hv⟩, hQ⟩ := exists_last hport
      rcases List.append_eq_append_iff.mp (hfs.symm.trans hfs') with ⟨M, hP, hM⟩ | ⟨M, hL, hM⟩
      · -- the host stands before the port
        cases M with
        | nil => exact absurd (List.cons.inj hM).1 (setting_ne h v)
        | cons x L₁ =>
            obtain ⟨rfl, hRQ⟩ := List.cons.inj hM
            have hhost' : ∀ f ∈ L₁ ++ Q, ¬ IsHost f := (forall_mem_middle.mp (hRQ ▸ hR)).2
            exact ⟨true, h, n, L, L₁, Q, .hostPort (by rw [hfs, hRQ]; rfl) hv hhost' hQ⟩
      · cases M with
        | nil => exact absurd (List.cons.inj hM).1.symm (setting_ne h v)
        | cons x L₁ =>
            obtain ⟨rfl, hQR⟩ := List.cons.inj hM
            have hport' : ∀ f ∈ L₁ ++ R, ¬ IsPort f := (forall_mem_middle.mp (hQR ▸ hQ)).2
            exact ⟨false, h, n, P, L₁, R, .portHost (by rw [hfs', hQR]; rfl) hv hR hport'⟩
    · have hall : ∀ f ∈ fs, ¬ IsPort f := fun f hf hp => hport ⟨f, hf, hp⟩
      have hnone : ∀ f ∈ L ++ R, ¬ IsPort f := (forall_mem_middle.mp (hfs ▸ hall)).2
      exact ⟨true, h, defaultPgPort, L, R, [], .hostOnly hfs hR hnone⟩
  · exact .inl fun f hf hp => hhost ⟨f, hf, hp⟩

theorem set_append_cons (L R : List Str) (f g : Str) :
    (L ++ f :: R).set L.length g = L ++ g :: R := by simp

/-- What the source finds in the fields of a shape, and what it makes of them. -/
theorem scan_of_shape (hshape : Shape fs hostFirst h n L₀ L₁ L₂) :
    ∃ hostIdx, (DsnScan.run {} 0 fs).hostIdx = some hostIdx ∧ (DsnScan.run {} 0 fs).host = h ∧
      (DsnScan.run {} 0 fs).port = n ∧ ∀ th tp,
        setFields fs hostIdx (DsnScan.run {} 0 fs).portIdx th tp =
          assemble hostFirst L₀ L₁ L₂ th tp := by
  cases hshape with
  | @hostPort _ v _ _ _ _ hfs hv hhost hport =>
      have hR : ∀ f ∈ L₁ ++ setting portKey v :: L₂, ¬ IsHost f :=
        forall_mem_middle.mpr ⟨not_isHost_port v, hhost⟩
      have hfs' : fs = (L₀ ++ setting hostKey h :: L₁) ++ setting portKey v :: L₂ := by
        rw [hfs]
        simp
      have hh := run_host (s := {}) (i := 0) (h := h) (L := L₀) hR
      have hp := run_port (s := {}) (i := 0) (L := L₀ ++ setting hostKey h :: L₁) hv hport
      rw [← hfs] at hh
      rw [← hfs'] at hp
      refine ⟨_, hh.1, hh.2, hp.2, fun th tp => ?_⟩
      have hlen : (L₀ ++ setting hostKey h :: L₁).length =
          (L₀ ++ setting hostKey th :: L₁).length := by simp
      have hset : fs.set (0 + L₀.length) (setting hostKey th) =
          (L₀ ++ setting hostKey th :: L₁) ++ setting portKey v :: L₂ := by
        rw [Nat.zero_add, hfs, set_append_cons]
        simp
      rw [hp.1]
      show (fs.set (0 + L₀.length) (setting hostKey th)).set _ (setting portKey tp) = _
      rw [hset, Nat.zero_add, hlen, set_append_cons]
      simp [assemble]
  | @portHost _ v _ _ _ _ hfs hv hhost hport =>
      have hR : ∀ f ∈ L₁ ++ setting hostKey h :: L₂, ¬ IsPort f :=
        forall_mem_middle.mpr ⟨not_isPort_host h, hport⟩
      have hfs' : fs = (L₀ ++ setting portKey v :: L₁) ++ setting hostKey h :: L₂ := by
        rw [hfs]
        simp
      have hh := run_host (s := {}) (i := 0) (h := h) (L := L₀ ++ setting portKey v :: L₁) hhost
      have hp := run_port (s := {}) (i := 0) (L := L₀) hv hR
      rw [← hfs'] at hh
      rw [← hfs] at hp
      refine ⟨_, hh.1, hh.2, hp.2, fun th tp => ?_⟩
      have hset : fs.set (0 + (L₀ ++ setting portKey v :: L₁).length) (setting hostKey th) =
          L₀ ++ setting portKey v :: (L₁ ++ setting hostKey th :: L₂) := by
        rw [Nat.zero_add, hfs', set_append_cons]
        simp
      rw [hp.1]
      show (fs.set _ (setting hostKey th)).set (0 + L₀.length) (setting portKey tp) = _
      rw [hset, Nat.zero_add, set_append_cons]
      simp [assemble]
  | hostOnly hfs hhost hport =>
      have hh := run_host (s := {}) (i := 0) (h := h) (L := L₀) hhost
      rw [← hfs] at hh
      have hnone : ∀ f ∈ fs, ¬ IsPort f :=
        hfs ▸ forall_mem_middle.mpr ⟨not_isPort_host h, hport⟩
      have hp := run_of_not_isPort (s := {}) (i := 0) hnone
      refine ⟨_, hh.1, hh.2, hp.2, fun th tp => ?_⟩
      have hset : fs.set (0 + L₀.length) (setting hostKey th) =
          L₀ ++ setting hostKey th :: L₁ := by
        rw [Nat.zero_add, hfs, set_append_cons]
      rw [hp.1]
      show fs.set _ (setting hostKey th) ++ [setting portKey tp] = _
      rw [hset]
      simp [assemble]

end Shapes

/-! ## 4. What is asked for -/

/-- Every address that is looked up is a host and a port. -/
def Addresses (hosts : HostLookup) : Prop :=
  ∀ h p t, hosts h p = some t → ∃ th tp, HostName th ∧ PortText tp ∧ t = th ++ ':' :: tp

/-- A text without the blanks around it. -/
def trimBlanks (s : Str) : Str :=
  ((s.dropWhile Conninfo.isBlank).reverse.dropWhile Conninfo.isBlank).reverse

/-- The port that libpq uses: the default where there is none, or an empty one. -/
def effectivePort (m : List Setting) : Option Int :=
  match last m portKey with
  | none => some defaultPgPort
  | some [] => some defaultPgPort
  | some p => parseInt (trimBlanks p)

section Dsn

variable (keyword : Str → Prop)

/-- A connection string that libpq accepts, with its settings. -/
def ValidDsn (cs : Str) (m : List Setting) : Prop :=
  Conninfo.parse cs = some m ∧ ∀ e ∈ m, keyword e.1

variable (readHost : Str → Option Str) (hosts : HostLookup)

/-- Where a connection string is rewritten, the result is one, and says the same but for host and
    port, which are those looked up for its host and port. -/
def DsnRight (cs : Str) : Prop :=
  ∀ s, translatePGConnString readHost hosts cs = some s →
    ∃ m m' h p th tp, ValidDsn keyword cs m ∧ ValidDsn keyword s m' ∧
      last m hostKey = some h ∧ effectivePort m = some p ∧ hosts h p = some (th ++ ':' :: tp) ∧
      HostName th ∧ PortText tp ∧ last m' hostKey = some th ∧ last m' portKey = some tp ∧
      ∀ k, k ≠ hostKey → k ≠ portKey → last m' k = last m k

/-- **When only the endpoint changes.** No field is a host; or the fields have a shape whose host
    and port are the ones that the settings `m` of the string have, and the host and the port are
    settings of their own between its parts, with the fields joined by single blanks, and
    nothing else reads differently for it. -/
def Rewritable (cs : Str) (m : List Setting) : Prop :=
  (∀ f ∈ fields cs, ¬ IsHost f) ∨
    ∃ hostFirst h n L₀ L₁ L₂, Shape (fields cs) hostFirst h n L₀ L₁ L₂ ∧
      last m hostKey = some h ∧ effectivePort m = some n ∧
      if hostFirst then Slots hostKey portKey L₀ L₁ L₂ (last m)
      else Slots portKey hostKey L₀ L₁ L₂ (last m)

/-- `Port` of a URL, or the default. -/
def urlPort (u : Url.URL Authority) : Option Int :=
  if (splitHostPort (urlHost u)).2 = [] then some defaultPgPort
  else parseInt (splitHostPort (urlHost u)).2

/-- Where a URL is rewritten, the result is one, with the host and the port that are looked up for
    its host and port, and with the same user, password, path, query and fragment. -/
def UrlRight (cs : Str) : Prop :=
  ∀ s, translatePGConnString readHost hosts cs = some s →
    ∃ u v p th tp, Url.parse (readAuthority readHost) cs = some u ∧
      Url.parse (readAuthority readHost) s = some v ∧ urlPort u = some p ∧
      hosts (splitHostPort (urlHost u)).1 p = some (th ++ ':' :: tp) ∧
      HostName th ∧ PortText tp ∧ splitHostPort (urlHost v) = (th, tp) ∧
      SameButHost u v (th ++ ':' :: tp)

/-- A connection string: with the prefix of a URL, or one that libpq accepts as settings. -/
def IsConnString (cs : Str) : Prop := isPgURL cs = true ∨ ∃ m, ValidDsn keyword cs m

/-- Only the endpoint changes, whatever is looked up. -/
def TranslatedRight (cs : Str) : Prop :=
  ∀ hosts, Addresses hosts →
    if isPgURL cs then UrlRight readHost hosts cs else DsnRight keyword readHost hosts cs

end Dsn

/-! ## 5. Connection strings -/

section Strings

variable {readHost : Str → Option Str} {hosts : HostLookup} {cs : Str}

theorem pgEndpoint_of_not_url (h : isPgURL cs = false) :
    pgEndpoint (netURL readHost) cs = dsnEndpoint cs := by
  rw [pgEndpoint, h]
  split
  · rename_i hnil
    subst hnil
    rfl
  · rfl

theorem translate_of_not_isHost (hurl : isPgURL cs = false) (h : ∀ f ∈ fields cs, ¬ IsHost f) :
    translatePGConnString readHost hosts cs = none := by
  rw [translatePGConnString, pgEndpoint_of_not_url hurl, dsnEndpoint]
  simp only [(run_of_not_isHost (s := {}) (i := 0) h).1]
  rfl

/-- **What the source makes of a string of a shape.** -/
theorem translate_of_shape (hurl : isPgURL cs = false) {hostFirst : Bool} {h : Str} {n : Int}
    {L₀ L₁ L₂ : List Str} (hshape : Shape (fields cs) hostFirst h n L₀ L₁ L₂) :
    translatePGConnString readHost hosts cs = (hosts h n).bind fun t =>
      (Url.cut ':' t).2.map fun tp => join (assemble hostFirst L₀ L₁ L₂ (Url.cut ':' t).1 tp) := by
  obtain ⟨hostIdx, hidx, hhost, hport, hset⟩ := scan_of_shape hshape
  rw [translatePGConnString, pgEndpoint_of_not_url hurl, dsnEndpoint]
  simp only [hidx, Option.map_some, Option.bind_some, hhost, hport]
  congr 1
  funext t
  cases hcut : Url.cut ':' t with
  | mk th tp =>
      cases tp with
      | none => rfl
      | some tp => exact congrArg (fun l => some (join l)) (hset th tp)

theorem cut_hostPort {th tp : Str} (hh : HostName th) :
    Url.cut ':' (th ++ ':' :: tp) = (th, some tp) :=
  Url.cut_append_cons (NetUrl.colon_not_mem_host hh) tp

theorem translate_of_answer (hurl : isPgURL cs = false) {hostFirst : Bool} {h th tp : Str} {n : Int}
    {L₀ L₁ L₂ : List Str} (hshape : Shape (fields cs) hostFirst h n L₀ L₁ L₂)
    (hh : HostName th) (hlookup : hosts h n = some (th ++ ':' :: tp)) :
    translatePGConnString readHost hosts cs = some (join (assemble hostFirst L₀ L₁ L₂ th tp)) := by
  rw [translate_of_shape hurl hshape, hlookup, Option.bind_some, cut_hostPort hh]
  rfl

theorem plain_of_isHostChar {c : Char} (h : NetUrl.isHostChar c = true) : Conninfo.Plain c := by
  have hall : ([' ', '\t', '\n', '\x0b', '\x0c', '\r', '=', '\'', '\\'].all fun d =>
      !NetUrl.isHostChar d) = true := by decide
  have hnot : c ∉ [' ', '\t', '\n', '\x0b', '\x0c', '\r', '=', '\'', '\\'] := fun hm => by
    have := List.all_eq_true.mp hall c hm
    rw [h] at this
    cases this
  simp only [List.mem_cons, List.not_mem_nil, or_false, not_or] at hnot
  refine ⟨?_, hnot.2.2.2.2.2.2.1, hnot.2.2.2.2.2.2.2.1, hnot.2.2.2.2.2.2.2.2⟩
  rw [Conninfo.isBlank, decide_eq_false_iff_not]
  simp [hnot]

theorem words_hostName : Words HostName :=
  ⟨fun _ h => ⟨h.1, fun c hc => plain_of_isHostChar (List.all_eq_true.mp h.2 c hc)⟩,
    ['a'], ['b'], by decide, by decide, by decide⟩

theorem words_portText : Words PortText :=
  ⟨fun _ h => ⟨h.1, fun c hc => plain_of_isHostChar
      (NetUrl.isHostChar_of_isDigit (List.all_eq_true.mp h.2 c hc))⟩,
    ['1'], ['2'], by decide, by decide, by decide⟩

section Reads

variable {hostFirst : Bool} {L₀ L₁ L₂ : List Str} {E : Str → Option Str}

/-- A host and a port at their places are read as what they are, and the rest as `E` says. -/
def Reads (hostFirst : Bool) (L₀ L₁ L₂ : List Str) (E : Str → Option Str) : Prop :=
  ∀ th tp, HostName th → PortText tp →
    ∃ m', Conninfo.parse (join (assemble hostFirst L₀ L₁ L₂ th tp)) = some m' ∧
      last m' hostKey = some th ∧ last m' portKey = some tp ∧
      ∀ k, k ≠ hostKey → k ≠ portKey → last m' k = E k

theorem reads_iff : Reads hostFirst L₀ L₁ L₂ E ↔
    if hostFirst then Slots hostKey portKey L₀ L₁ L₂ E else Slots portKey hostKey L₀ L₁ L₂ E := by
  have hne : hostKey ≠ portKey := by decide
  cases hostFirst with
  | true =>
      exact Conninfo.slots_iff words_hostName words_portText word_hostKey word_portKey hne
  | false =>
      rw [if_neg Bool.false_ne_true, ← Conninfo.slots_iff words_portText words_hostName word_portKey
        word_hostKey hne.symm]
      constructor
      · intro h tp th hp hh
        obtain ⟨m', hm', h₁, h₂, hrest⟩ := h th tp hh hp
        exact ⟨m', hm', h₂, h₁, fun k hk hk' => hrest k hk' hk⟩
      · intro h th tp hh hp
        obtain ⟨m', hm', h₁, h₂, hrest⟩ := h tp th hp hh
        exact ⟨m', hm', h₂, h₁, fun k hk hk' => hrest k hk' hk⟩

end Reads

section Iff

variable {keyword : Str → Prop} {m : List Setting}

/-- What names a string has is what names have a value in it. -/
theorem keyword_of_last {m' : List Setting} (hhost : keyword hostKey) (hport : keyword portKey)
    (hkw : ∀ e ∈ m, keyword e.1)
    (hrest : ∀ k, k ≠ hostKey → k ≠ portKey → last m' k = last m k) :
    ∀ e ∈ m', keyword e.1 := by
  intro e he
  by_cases hh : e.1 = hostKey
  · rwa [hh]
  · by_cases hp : e.1 = portKey
    · rwa [hp]
    · have hsome : last m e.1 ≠ none := by
        rw [← hrest e.1 hh hp, Ne, Conninfo.last_eq_none_iff, not_not]
        exact List.mem_map_of_mem he
      rw [Ne, Conninfo.last_eq_none_iff, not_not] at hsome
      obtain ⟨e', he', heq⟩ := List.mem_map.mp hsome
      exact heq ▸ hkw e' he'

/-- One address for one host and port. -/
def onlyLookup (h : Str) (n : Int) (t : Str) : HostLookup := fun h' n' =>
  if h' = h ∧ n' = n then some t else none

theorem onlyLookup_eq_some {h h' t t' : Str} {n n' : Int} (he : onlyLookup h n t h' n' = some t') :
    h' = h ∧ n' = n ∧ t' = t := by
  unfold onlyLookup at he
  split at he
  · rename_i hc
    exact ⟨hc.1, hc.2, (Option.some.inj he).symm⟩
  · cases he

theorem addresses_onlyLookup {h th tp : Str} {n : Int} (hh : HostName th) (hp : PortText tp) :
    Addresses (onlyLookup h n (th ++ ':' :: tp)) := by
  intro h' n' t ht
  exact ⟨th, tp, hh, hp, (onlyLookup_eq_some ht).2.2⟩

theorem hostPort_inj {th tp th' tp' : Str} (hh : HostName th) (hh' : HostName th')
    (h : th ++ ':' :: tp = th' ++ ':' :: tp') : th = th' ∧ tp = tp' :=
  Str.append_cons_inj (NetUrl.colon_not_mem_host hh) (NetUrl.colon_not_mem_host hh') h

/-- **When only the endpoint of a connection string changes**, whatever is looked up. -/
theorem dsn_right_iff (hhost : keyword hostKey) (hport : keyword portKey)
    (hurl : isPgURL cs = false) (hm : ValidDsn keyword cs m) :
    (∀ hosts, Addresses hosts → DsnRight keyword readHost hosts cs) ↔ Rewritable cs m := by
  constructor
  · intro h
    rcases shape_cases (fields cs) with hnone | ⟨hostFirst, h₀, n, L₀, L₁, L₂, hshape⟩
    · exact .inl hnone
    · -- one address at a time, for the host and the port that the source takes
      have hone : ∀ th tp, HostName th → PortText tp → ∃ m',
          Conninfo.parse (join (assemble hostFirst L₀ L₁ L₂ th tp)) = some m' ∧
          last m hostKey = some h₀ ∧ effectivePort m = some n ∧
          last m' hostKey = some th ∧ last m' portKey = some tp ∧
          ∀ k, k ≠ hostKey → k ≠ portKey → last m' k = last m k := by
        intro th tp hh hp
        have hanswer : onlyLookup h₀ n (th ++ ':' :: tp) h₀ n = some (th ++ ':' :: tp) :=
          if_pos ⟨rfl, rfl⟩
        obtain ⟨m₁, m', h₁, n₁, th₁, tp₁, hm₁, hm', hh₁, hn₁, hlookup, hth₁, -, hh', hp', hrest⟩ :=
          h _ (addresses_onlyLookup hh hp) _ (translate_of_answer hurl hshape hh hanswer)
        obtain rfl := Option.some.inj (hm₁.1.symm.trans hm.1)
        obtain ⟨rfl, rfl, ht⟩ := onlyLookup_eq_some hlookup
        obtain ⟨rfl, rfl⟩ := hostPort_inj hth₁ hh ht
        exact ⟨m', hm'.1, hh₁, hn₁, hh', hp', hrest⟩
      obtain ⟨-, -, hh₀, hn, -⟩ := hone ['a'] ['1'] (by decide) (by decide)
      refine .inr ⟨hostFirst, h₀, n, L₀, L₁, L₂, hshape, hh₀, hn, reads_iff.mp ?_⟩
      intro th tp hh hp
      obtain ⟨m', hm', -, -, hrest⟩ := hone th tp hh hp
      exact ⟨m', hm', hrest⟩
  · rintro (hnone | ⟨hostFirst, h₀, n, L₀, L₁, L₂, hshape, hh₀, hn, hslots⟩) hosts haddresses s hs
    · rw [translate_of_not_isHost hurl hnone] at hs
      cases hs
    · have hreads := reads_iff.mpr hslots
      cases hlookup : hosts h₀ n with
      | none =>
          rw [translate_of_shape hurl hshape, hlookup] at hs
          cases hs
      | some t =>
          obtain ⟨th, tp, hh, hp, rfl⟩ := haddresses h₀ n t hlookup
          rw [translate_of_answer hurl hshape hh hlookup] at hs
          obtain rfl := Option.some.inj hs
          obtain ⟨m', hm', hh', hp', hrest⟩ := hreads th tp hh hp
          exact ⟨m, m', h₀, n, th, tp, hm, ⟨hm', keyword_of_last hhost hport hm.2 hrest⟩, hh₀, hn,
            hlookup, hh, hp, hh', hp', hrest⟩

end Iff

/-! ## 6. URLs -/

/-- What the source makes of a URL. -/
theorem translate_of_url (hurl : isPgURL cs = true) {u : Url.URL Authority}
    (hu : Url.parse (readAuthority readHost) cs = some u) :
    translatePGConnString readHost hosts cs = (urlPort u).bind fun p =>
      (hosts (splitHostPort (urlHost u)).1 p).map fun t =>
        NetUrl.string u ⟨u.authority.bind (·.user), t⟩ := by
  have hne : cs ≠ [] := by
    rintro rfl
    cases hurl
  rw [translatePGConnString, pgEndpoint, if_neg hne, if_pos hurl, netURL, hu, Option.map_some,
    Option.bind_some, urlEndpoint, urlPort]
  dsimp only
  split
  · simp only [Option.bind_some, Option.map_eq_bind]
    rfl
  · cases parseInt (splitHostPort (urlHost u)).2 with
    | none => rfl
    | some n =>
        simp only [Option.bind_some, Option.map_eq_bind]
        rfl

/-- A string with the prefix of a URL is read as one with a scheme and an authority. -/
theorem hierarchical_of_isPgURL (hurl : isPgURL cs = true) {u : Url.URL Authority}
    (hu : Url.parse (readAuthority readHost) cs = some u) :
    u.scheme ≠ [] ∧ u.authority ≠ none := by
  rw [isPgURL, Bool.or_eq_true] at hurl
  rcases hurl with h | h
  · obtain ⟨rest, rfl⟩ := Str.hasPrefix_iff.mp h
    have hu' : Url.parse (readAuthority readHost)
        ("postgres".toList ++ ':' :: '/' :: '/' :: rest) = some u := hu
    exact NetUrl.hierarchical_of_parse ⟨'p', _, rfl, by decide⟩
      (Str.forall_mem_of_all (by decide)) hu'
  · obtain ⟨rest, rfl⟩ := Str.hasPrefix_iff.mp h
    have hu' : Url.parse (readAuthority readHost)
        ("postgresql".toList ++ ':' :: '/' :: '/' :: rest) = some u := hu
    exact NetUrl.hierarchical_of_parse ⟨'p', _, rfl, by decide⟩
      (Str.forall_mem_of_all (by decide)) hu'

/-- **Of a URL only the host and the port change.** -/
theorem url_right (hurl : isPgURL cs = true) (haddresses : Addresses hosts)
    (hread : ∀ th tp, HostName th → PortText tp →
      readHost (th ++ ':' :: tp) = some (th ++ ':' :: tp)) :
    UrlRight readHost hosts cs := by
  intro s hs
  cases hu : Url.parse (readAuthority readHost) cs with
  | none =>
      have hne : cs ≠ [] := by
        rintro rfl
        cases hurl
      rw [translatePGConnString, pgEndpoint, if_neg hne, if_pos hurl, netURL, hu] at hs
      cases hs
  | some u =>
      rw [translate_of_url hurl hu] at hs
      obtain ⟨p, hp, hs⟩ := Option.bind_eq_some_iff.mp hs
      obtain ⟨t, ht, rfl⟩ := Option.map_eq_some_iff.mp hs
      obtain ⟨th, tp, hth, htp, rfl⟩ := haddresses _ _ _ ht
      obtain ⟨hscheme, hauthority⟩ := hierarchical_of_isPgURL hurl hu
      obtain ⟨a, ha⟩ := Option.ne_none_iff_exists'.mp hauthority
      obtain ⟨v, hv, hsame⟩ :=
        NetUrl.parse_string hu hscheme ha hth htp (hread th tp hth htp)
      obtain ⟨b, hb, hvb⟩ := hsame.authority
      refine ⟨u, v, p, th, tp, rfl, ?_, hp, ht, hth, htp, ?_, hsame⟩
      · rw [ha]
        exact hv
      · rw [urlHost, hvb]
        exact NetUrl.splitHostPort_hostPort hth htp

end Strings

end DevDashboard.StateStore
