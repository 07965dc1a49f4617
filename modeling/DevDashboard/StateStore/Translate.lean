/-
  File:      DevDashboard/StateStore/Translate.lean
  Subject:   ADDRESSES AS THE HOST REACHES THEM (`pkg/statestore/translate.go`).

  `Translate` rewrites one property of a component, the one that holds its address. An address of
  a network service is taken apart into a host, a port, and the text around them (`Endpoint`); a
  file is looked up as it stands. Of `net/url` only what the source calls is a parameter (`NetURL`).

  * `parseInt_itoa` -- a number is read back as it was written;
  * `translate_get_of_ne` -- every other property stays;
  * `translate_get` -- what the address becomes.
-/
import DevDashboard.Lib.Url
import DevDashboard.StateStore.Detect

namespace DevDashboard.StateStore

open Lib

/-! ## 1. Numbers -/

/-- The numbers of a Go `int`. -/
def IsInt (n : Int) : Prop := -2 ^ 63 ≤ n ∧ n < 2 ^ 63

instance (n : Int) : Decidable (IsInt n) := inferInstanceAs (Decidable (_ ∧ _))

/-- A sign, and what follows it. -/
def signed : Str → Bool × Str
  | '-' :: ds => (true, ds)
  | '+' :: ds => (false, ds)
  | ds => (false, ds)

/-- `strconv.Atoi`; `none` is an error. -/
def parseInt (s : Str) : Option Int :=
  let digits := (signed s).2
  if digits = [] ∨ digits.all Char.isDigit = false then none
  else
    let abs : Int := Nat.ofDigitChars 10 digits 0
    let n := if (signed s).1 then -abs else abs
    if IsInt n then some n else none

/-- `strconv.Itoa`. -/
def itoa (n : Int) : Str :=
  if n < 0 then '-' :: Nat.toDigits 10 n.natAbs else Nat.toDigits 10 n.natAbs

/-- Digits have no sign. -/
theorem signed_toDigits (n : Nat) : signed (Nat.toDigits 10 n) = (false, Nat.toDigits 10 n) := by
  have hdigit : ∀ c ∈ Nat.toDigits 10 n, c.isDigit = true :=
    fun _ hc => Nat.isDigit_of_mem_toDigits (by decide) (by decide) hc
  unfold signed
  split
  · rename_i ds heq
    have := hdigit '-' (heq ▸ List.mem_cons_self)
    cases this
  · rename_i ds heq
    have := hdigit '+' (heq ▸ List.mem_cons_self)
    cases this
  · rfl

/-- **A number is read back as it was written.** -/
theorem parseInt_itoa {n : Int} (h : IsInt n) : parseInt (itoa n) = some n := by
  have hdigits : (Nat.toDigits 10 n.natAbs).all Char.isDigit = true :=
    List.all_eq_true.mpr fun _ hc => Nat.isDigit_of_mem_toDigits (by decide) (by decide) hc
  have hne : Nat.toDigits 10 n.natAbs ≠ [] := Nat.toDigits_ne_nil
  have hread : (Nat.ofDigitChars 10 (Nat.toDigits 10 n.natAbs) 0 : Int) = n.natAbs := by simp
  unfold itoa parseInt
  split
  · rename_i hneg
    have hn : -(n.natAbs : Int) = n := by omega
    simp only [signed, hne, hdigits, hread, hn, h, if_true, if_false, Bool.true_eq_false, or_self]
  · rename_i hpos
    have hn : (n.natAbs : Int) = n := by omega
    simp only [signed_toDigits, hne, hdigits, hread, hn, h, if_true, if_false, Bool.true_eq_false,
      Bool.false_eq_true, or_self]

/-! ## 2. Addresses -/

/-- `HostLookup`. -/
abbrev HostLookup := Str → Int → Option Str

/-- `PathLookup`. -/
abbrev PathLookup := Str → Option Str

/-- A parsed URL: `Hostname`, `Port`, and `String` after `Host` was set. -/
structure NetURL where
  hostname : Str
  port : Str
  withHost : Str → Str

/-- An address taken apart: `put` is the address with a translated host and port, if they can be
    told apart. -/
structure Endpoint where
  host : Str
  port : Int
  put : Str → Option Str

/-- A bare `host:port`. -/
def hostPortEndpoint (addr : Str) : Option Endpoint :=
  match Url.cut ':' addr with
  | (_, none) => none
  | (host, some port) => (parseInt port).map fun n => ⟨host, n, some⟩

def defaultPgPort : Int := 5432

/-- A parsed PostgreSQL URL. -/
def urlEndpoint (u : NetURL) : Option Endpoint :=
  if u.port = [] then some ⟨u.hostname, defaultPgPort, fun t => some (u.withHost t)⟩
  else (parseInt u.port).map fun n => ⟨u.hostname, n, fun t => some (u.withHost t)⟩

/-- What the loop over the fields of a connection string has found: the last `host`, and the last
    `port` that is a number, with their places. -/
structure DsnScan where
  hostIdx : Option Nat := none
  host : Str := []
  portIdx : Option Nat := none
  port : Int := defaultPgPort

/-- One field, at place `i`. -/
def DsnScan.step (s : DsnScan) (i : Nat) (field : Str) : DsnScan :=
  match Url.cut '=' field with
  | (_, none) => s
  | (key, some value) =>
      if key = "host".toList then { s with hostIdx := some i, host := value }
      else if key = "port".toList then
        match parseInt value with
        | some n => { s with portIdx := some i, port := n }
        | none => s
      else s

def DsnScan.run (s : DsnScan) (i : Nat) : List Str → DsnScan
  | [] => s
  | field :: rest => (s.step i field).run (i + 1) rest

/-- The fields with `host` and `port` set. -/
def setFields (fs : List Str) (hostIdx : Nat) (portIdx : Option Nat) (host port : Str) : List Str :=
  let fs' := fs.set hostIdx ("host=".toList ++ host)
  match portIdx with
  | some i => fs'.set i ("port=".toList ++ port)
  | none => fs' ++ ["port=".toList ++ port]

/-- A keyword connection string. -/
def dsnEndpoint (cs : Str) : Option Endpoint :=
  let s := DsnScan.run {} 0 (fields cs)
  s.hostIdx.map fun hostIdx =>
    ⟨s.host, s.port, fun t =>
      match Url.cut ':' t with
      | (_, none) => none
      | (th, some tp) => some ([' '].intercalate (setFields (fields cs) hostIdx s.portIdx th tp))⟩

section Translate

variable (parse : Str → Option NetURL)

/-- What `translatePGConnString` reads of a connection string. -/
def pgEndpoint (cs : Str) : Option Endpoint :=
  if cs = [] then none
  else if isPgURL cs then (parse cs).bind urlEndpoint
  else dsnEndpoint cs

/-- The property that holds the address of a store. -/
def addressKey : StoreType → Option Str
  | .redis => some "redisHost".toList
  | .postgresql | .postgres | .sqlite => some "connectionString".toList
  | .mongodb => some "host".toList
  | .other _ => none

/-- How the address of a network service is read. -/
def endpointOf : StoreType → Str → Option Endpoint
  | .redis, addr | .mongodb, addr => hostPortEndpoint addr
  | .postgresql, cs | .postgres, cs => pgEndpoint parse cs
  | .sqlite, _ | .other _, _ => none

variable (hosts : HostLookup) (paths : PathLookup)

/-- A file in the place of the one of a connection string, whose options stay behind it. -/
def withQuery (cs hostPath : Str) : Str :=
  match (Url.cut '?' cs).2 with
  | none => hostPath
  | some query => hostPath ++ '?' :: query

/-- The connection string of a file. -/
def translateFile (cs : Str) : Option Str := (paths (Url.cut '?' cs).1).map (withQuery cs)

/-- The address as the host reaches it; `none` if it stays. -/
def translateAddress (type : StoreType) (addr : Str) : Option Str :=
  if type = .sqlite then translateFile paths addr
  else (endpointOf parse type addr).bind fun e => (hosts e.host e.port).bind e.put

/-- `Translate`, of the metadata of a component. The lookups are always set. -/
def translateMetadata (type : StoreType) (md : Dict Str Str) : Dict Str Str :=
  match addressKey type with
  | none => md
  | some key =>
      match translateAddress parse hosts paths type ((md.get key).getD []) with
      | some addr => md.put key addr
      | none => md

/-! ## 3. What changes -/

variable {parse hosts paths} {type : StoreType} {md : Dict Str Str}

/-- **Every other property stays.** -/
theorem translate_get_of_ne {key : Str} (h : addressKey type ≠ some key) :
    (translateMetadata parse hosts paths type md).get key = md.get key := by
  unfold translateMetadata
  split
  · rfl
  · rename_i k hk
    have hne : key ≠ k := fun he => h (he ▸ hk)
    split
    · exact Dict.get_put_of_ne _ _ hne
    · rfl

/-- **What the address becomes.** -/
theorem translate_get {key : Str} (h : addressKey type = some key) :
    (translateMetadata parse hosts paths type md).get key =
      (translateAddress parse hosts paths type ((md.get key).getD [])).or (md.get key) := by
  unfold translateMetadata
  rw [h]
  simp only
  split
  · rename_i addr haddr
    rw [haddr, Dict.get_put_self]
    rfl
  · rename_i hnone
    rw [hnone]
    rfl

end Translate

end DevDashboard.StateStore
