/-
  File:      DevDashboard/Cmd/Routes.lean
  Subject:   TWO ROUTES TO THE ACTIVE STORE (`cmd/reconciler.go`: `resolveComponent` of the empty
             id and of the id of an entry, `translate`).

  The empty id stands for the elected store, which is translated once. `componentForEntry` has
  translated the component of an entry already, and `resolveComponent` translates it again. Each
  translation goes through its maps in an order of its own.

  * `LeadsTo` -- an entry of the tables of a project, for an address;
  * `TablesSettled` -- the entries of the projects that own a component agree, and lead no further;
  * `settled_hostPort_iff` -- what that comes to for a `host:port`;
  * `store_routes_agree_iff` -- both routes give the same component, in whatever orders, exactly then;
  * `store_routes_disagree` -- a mount into a directory below its own destination.
-/
import DevDashboard.Cmd.Stores

namespace DevDashboard.Cmd

open Lib StateStore Discovery

/-! ## 1. The routes -/

/-- Sources with a compose environment, in the orders of one call. -/
def Sources.under (src : Sources) (parse : Str → Option NetURL) (env : ComposeEnv) (rg : Ranges) :
    Sources :=
  { src with translated := translateIn parse src.fs.cwd env rg }

/-- `resolveComponent`, whose lookup of an entry goes through the maps in other orders than its own
    translation does. -/
def resolveBy (lookup own : Sources) (entries : List ConnEntry) (active : Option StoreComponent)
    (id : Str) : Option (Option StoreComponent) :=
  if id = [] then some (active.map (translate own))
  else ((componentFor lookup entries id).map (translate own)).map some

theorem resolveBy_self (src : Sources) : resolveBy src src = resolveComponent src := rfl

/-! ## 2. The tables -/

/-- The projects that own a path. -/
def owners (cwd : Str) (env : ComposeEnv) (p : Str) : List Str :=
  (env.pathProject.entries.filter fun x => holds cwd x.1 p).map Prod.snd

/-- An entry of the tables of a project that applies to an address of this type, and the address
    it leads to. -/
inductive LeadsTo (parse : Str → Option NetURL) (proj : ComposeProject) :
    StoreType → Str → Str → Prop where
  /-- the service that the address names publishes its port -/
  | port {type : StoreType} {addr w : Str} {ep : Endpoint} {hp : Int}
      (hep : endpointOf parse type addr = some ep) (hhp : proj.published ep.host ep.port = some hp)
      (hw : ep.put (localAddr hp) = some w) : LeadsTo parse proj type addr w
  /-- the file lies at or below the destination of a mount -/
  | mount {addr hostPath : Str} {m : Str × Str} (hm : m ∈ proj.mounts.entries)
      (hpath : throughMount (trimSlash (Url.cut '?' addr).1) m = some hostPath) :
      LeadsTo parse proj .sqlite addr (withQuery addr hostPath)

/-- The address of a component. -/
def addressOf (c : StoreComponent) : Option Str := (addressKey c.type).bind c.metadata.get

/-- **The tables leave nothing open for a component.** -/
structure TablesSettled (parse : Str → Option NetURL) (cwd : Str) (env : ComposeEnv)
    (c : StoreComponent) : Prop where
  /-- All the entries for its address lead to one address. -/
  agree : ∀ n ∈ owners cwd env c.path, ∀ w,
    LeadsTo parse (env.project n) c.type ((addressOf c).getD []) w →
    ∀ n' ∈ owners cwd env c.path, ∀ w',
      LeadsTo parse (env.project n') c.type ((addressOf c).getD []) w' → w' = w
  /-- If an owner has no entry for it while another has one, then it is that address already. -/
  everywhere : ∀ n ∈ owners cwd env c.path, ∀ w,
    LeadsTo parse (env.project n) c.type ((addressOf c).getD []) w →
    ∀ n' ∈ owners cwd env c.path,
      (∀ w', ¬ LeadsTo parse (env.project n') c.type ((addressOf c).getD []) w') →
      addressOf c = some w
  /-- No entry for that address leads elsewhere. -/
  final : ∀ n ∈ owners cwd env c.path, ∀ w,
    LeadsTo parse (env.project n) c.type ((addressOf c).getD []) w →
    ∀ n' ∈ owners cwd env c.path, ∀ w', LeadsTo parse (env.project n') c.type w w' → w' = w

section Tables

variable {parse : Str → Option NetURL} {proj : ComposeProject} {rg : Ranges} {type : StoreType}
  {addr w : Str}

theorem leadsTo_of_translate
    (h : translateAddress parse (hostsOf proj) (pathsOf rg proj) type addr = some w) :
    LeadsTo parse proj type addr w := by
  unfold translateAddress at h
  split at h
  · rename_i htype
    subst htype
    obtain ⟨hostPath, hpath, rfl⟩ := Option.map_eq_some_iff.mp h
    obtain ⟨m, hm, hthrough⟩ := List.exists_of_findSome?_eq_some hpath
    exact .mount ((rg.mounts_perm _).mem_iff.mp hm) hthrough
  · obtain ⟨ep, hep, h⟩ := Option.bind_eq_some_iff.mp h
    obtain ⟨t, ht, hw⟩ := Option.bind_eq_some_iff.mp h
    obtain ⟨hp, hhp, rfl⟩ := Option.map_eq_some_iff.mp ht
    exact .port hep hhp hw

/-- A network address is looked up in one place. -/
theorem translate_of_port {ep : Endpoint} {hp : Int} (hep : endpointOf parse type addr = some ep)
    (hhp : proj.published ep.host ep.port = some hp) (hw : ep.put (localAddr hp) = some w) :
    translateAddress parse (hostsOf proj) (pathsOf rg proj) type addr = some w := by
  have htype : type ≠ .sqlite := by
    intro he
    subst he
    cases hep
  unfold translateAddress
  rw [if_neg htype, hep, Option.bind_some, hostsOf, hhp, Option.map_some, Option.bind_some, hw]

theorem not_leadsTo_of_translate
    (h : translateAddress parse (hostsOf proj) (pathsOf rg proj) type addr = none) (w : Str) :
    ¬ LeadsTo parse proj type addr w := by
  intro hr
  cases hr with
  | port hep hhp hw =>
      rw [translate_of_port hep hhp hw] at h
      cases h
  | mount hm hpath =>
      have hnone : translateMountPath (rg.mounts proj.mounts) (Url.cut '?' addr).1 = none :=
        Option.map_eq_none_iff.mp h
      have := List.findSome?_eq_none_iff.mp hnone _ ((rg.mounts_perm _).mem_iff.mpr hm)
      rw [hpath] at this
      cases this

end Tables

/-! ## 3. Orders -/

/-- A list with one of its elements brought to the front. -/
def toFront (x : Str × Str) (l : List (Str × Str)) : List (Str × Str) :=
  if x ∈ l then x :: l.erase x else l

theorem toFront_perm (x : Str × Str) (l : List (Str × Str)) : (toFront x l).Perm l := by
  unfold toFront
  split
  · exact (List.perm_cons_erase ‹_›).symm
  · exact .refl _

theorem toFront_of_mem {x : Str × Str} {l : List (Str × Str)} (h : x ∈ l) :
    ∃ rest, toFront x l = x :: rest := ⟨_, if_pos h⟩

/-- The ranges that come upon `x` first among the paths, and upon `m` first among the mounts. -/
def Ranges.front (x m : Str × Str) : Ranges where
  paths d := toFront x d.entries
  mounts d := toFront m d.entries
  paths_perm d := toFront_perm x d.entries
  mounts_perm d := toFront_perm m d.entries

section Orders

variable {parse : Str → Option NetURL} {cwd : Str} {env : ComposeEnv}

theorem mem_owners_of_projectForPath {rg : Ranges} {p n : Str}
    (h : projectForPath cwd env rg p = some n) : n ∈ owners cwd env p := by
  obtain ⟨x, hx, rfl⟩ := Option.map_eq_some_iff.mp h
  have hholds : holds cwd x.1 p = true := by simpa using List.find?_some hx
  refine List.mem_map_of_mem (List.mem_filter.mpr ⟨?_, hholds⟩)
  exact (rg.paths_perm _).mem_iff.mp (List.mem_of_find?_eq_some hx)

theorem owners_eq_nil_of_projectForPath {rg : Ranges} {p : Str}
    (h : projectForPath cwd env rg p = none) : owners cwd env p = [] := by
  have hnone := List.find?_eq_none.mp (Option.map_eq_none_iff.mp h)
  unfold owners
  rw [List.map_eq_nil_iff, List.filter_eq_nil_iff]
  exact fun x hx => hnone x ((rg.paths_perm _).mem_iff.mpr hx)

/-- Every owner is the project of the path in some order, whatever mount is to come first. -/
theorem exists_front {p n : Str} (h : n ∈ owners cwd env p) :
    ∃ x, ∀ m, projectForPath cwd env (.front x m) p = some n := by
  obtain ⟨x, hx, rfl⟩ := List.mem_map.mp h
  obtain ⟨hmem, hholds⟩ := List.mem_filter.mp hx
  refine ⟨x, fun m => ?_⟩
  obtain ⟨rest, hrest⟩ := toFront_of_mem hmem
  show ((toFront x env.pathProject.entries).find? _).map Prod.snd = some x.2
  rw [hrest, List.find?_cons]
  simp only [hholds]
  rfl

/-- Every entry is the one that is found, in some order. -/
theorem exists_mount_front {proj : ComposeProject} {type : StoreType} {addr w : Str}
    (h : LeadsTo parse proj type addr w) : ∃ m, ∀ x,
      translateAddress parse (hostsOf proj) (pathsOf (.front x m) proj) type addr = some w := by
  cases h with
  | port hep hhp hw => exact ⟨([], []), fun x => translate_of_port hep hhp hw⟩
  | @mount _ hostPath m hm hpath =>
      refine ⟨m, fun x => ?_⟩
      obtain ⟨rest, hrest⟩ := toFront_of_mem hm
      have hfound : translateMountPath (toFront m proj.mounts.entries) (Url.cut '?' addr).1 =
          some hostPath := by
        rw [hrest, translateMountPath, List.findSome?_cons, hpath]
      exact congrArg (Option.map (withQuery addr)) hfound

end Orders

/-! ## 4. One translation -/

section Translation

variable (parse : Str → Option NetURL) (cwd : Str) (env : ComposeEnv)

/-- A component after `translate`, in one order. -/
def translated (rg : Ranges) (c : StoreComponent) : StoreComponent :=
  { c with metadata := translateIn parse cwd env rg c }

/-- The address that `translate` leaves in a component at a path. -/
def readdress (rg : Ranges) (p : Str) (type : StoreType) (addr : Option Str) : Option Str :=
  match projectForPath cwd env rg p with
  | none => addr
  | some n =>
      (translateAddress parse (hostsOf (env.project n)) (pathsOf rg (env.project n)) type
        (addr.getD [])).or addr

variable {parse cwd env}

theorem translated_get_of_ne {rg : Ranges} {c : StoreComponent} {k : Str}
    (h : addressKey c.type ≠ some k) :
    (translated parse cwd env rg c).metadata.get k = c.metadata.get k := by
  show (translateIn parse cwd env rg c).get k = c.metadata.get k
  unfold translateIn
  split
  · rfl
  · exact translate_get_of_ne h

theorem addressOf_of_key {d : StoreComponent} {key : Str} (h : addressKey d.type = some key) :
    addressOf d = d.metadata.get key := by
  rw [addressOf, h]
  rfl

theorem addressOf_translated (rg : Ranges) (c : StoreComponent) :
    addressOf (translated parse cwd env rg c) =
      readdress parse cwd env rg c.path c.type (addressOf c) := by
  cases hkey : addressKey c.type with
  | none =>
      -- such a component has no address, and `endpointOf` reads none
      obtain ⟨raw, htype⟩ : ∃ raw, c.type = .other raw := by
        cases ht : c.type with
        | other raw => exact ⟨raw, rfl⟩
        | _ => rw [ht] at hkey; cases hkey
      have hleft : addressOf (translated parse cwd env rg c) = none := by
        show (addressKey c.type).bind _ = none
        rw [hkey]
        rfl
      have hright : addressOf c = none := by
        rw [addressOf, hkey]
        rfl
      rw [hleft, hright, htype]
      unfold readdress
      split <;> rfl
  | some key =>
      rw [addressOf_of_key (d := translated parse cwd env rg c) hkey, addressOf_of_key hkey]
      show (translateIn parse cwd env rg c).get key = _
      unfold translateIn readdress
      cases projectForPath cwd env rg c.path with
      | none => rfl
      | some n => exact translate_get hkey

/-- Only the address tells the two routes apart. -/
theorem translated_eq_iff {r₁ r₂ r₃ : Ranges} {c : StoreComponent} :
    translated parse cwd env r₃ (translated parse cwd env r₂ c) = translated parse cwd env r₁ c ↔
      readdress parse cwd env r₃ c.path c.type
          (readdress parse cwd env r₂ c.path c.type (addressOf c)) =
        readdress parse cwd env r₁ c.path c.type (addressOf c) := by
  have hsecond : addressOf (translated parse cwd env r₃ (translated parse cwd env r₂ c)) =
      readdress parse cwd env r₃ c.path c.type
        (readdress parse cwd env r₂ c.path c.type (addressOf c)) := by
    rw [addressOf_translated, addressOf_translated]
    rfl
  rw [← hsecond, ← addressOf_translated]
  refine ⟨congrArg addressOf, fun h => ?_⟩
  have hmeta : (translated parse cwd env r₃ (translated parse cwd env r₂ c)).metadata =
      (translated parse cwd env r₁ c).metadata := by
    refine Dict.ext_get fun k => ?_
    by_cases hk : addressKey c.type = some k
    · rw [addressOf_of_key (d := translated parse cwd env r₃ (translated parse cwd env r₂ c)) hk,
        addressOf_of_key (d := translated parse cwd env r₁ c) hk] at h
      exact h
    · have htwice : (translated parse cwd env r₃ (translated parse cwd env r₂ c)).metadata.get k =
          (translated parse cwd env r₂ c).metadata.get k := translated_get_of_ne hk
      rw [htwice, translated_get_of_ne hk, translated_get_of_ne hk]
  exact congrArg (fun md => { c with metadata := md }) hmeta

variable {p : Str} {type : StoreType} {addr : Option Str}

/-- What one translation can do to an address. -/
theorem readdress_cases (rg : Ranges) :
    (owners cwd env p = [] ∧ readdress parse cwd env rg p type addr = addr) ∨
    ∃ n ∈ owners cwd env p,
      (∃ w, LeadsTo parse (env.project n) type (addr.getD []) w ∧
        readdress parse cwd env rg p type addr = some w) ∨
      ((∀ w, ¬ LeadsTo parse (env.project n) type (addr.getD []) w) ∧
        readdress parse cwd env rg p type addr = addr) := by
  unfold readdress
  cases hproj : projectForPath cwd env rg p with
  | none => exact .inl ⟨owners_eq_nil_of_projectForPath hproj, rfl⟩
  | some n =>
      refine .inr ⟨n, mem_owners_of_projectForPath hproj, ?_⟩
      simp only
      cases ht : translateAddress parse (hostsOf (env.project n)) (pathsOf rg (env.project n)) type
          (addr.getD []) with
      | none => exact .inr ⟨not_leadsTo_of_translate ht, rfl⟩
      | some w => exact .inl ⟨w, leadsTo_of_translate ht, rfl⟩

/-- Every entry of an owner is followed, in some order. -/
theorem exists_readdress {n w : Str} (hn : n ∈ owners cwd env p)
    (h : LeadsTo parse (env.project n) type (addr.getD []) w) :
    ∃ rg, readdress parse cwd env rg p type addr = some w := by
  obtain ⟨x, hx⟩ := exists_front hn
  obtain ⟨m, hm⟩ := exists_mount_front h
  refine ⟨.front x m, ?_⟩
  unfold readdress
  simp only [hx m, hm x]
  rfl

/-- An owner without an entry leaves the address, in some order. -/
theorem exists_readdress_stay {n : Str} (hn : n ∈ owners cwd env p)
    (h : ∀ w, ¬ LeadsTo parse (env.project n) type (addr.getD []) w) :
    ∃ rg, readdress parse cwd env rg p type addr = addr := by
  obtain ⟨x, hx⟩ := exists_front hn
  refine ⟨.front x ([], []), ?_⟩
  unfold readdress
  simp only [hx]
  cases ht : translateAddress parse (hostsOf (env.project n))
      (pathsOf (.front x ([], [])) (env.project n)) type (addr.getD []) with
  | none => rfl
  | some w => exact absurd (leadsTo_of_translate ht) (h w)

end Translation

/-! ## 5. Both routes -/

section Routes

variable {parse : Str → Option NetURL} {cwd : Str} {env : ComposeEnv} {c : StoreComponent}

/-- The address of a settled component, once an entry applies to it. -/
theorem TablesSettled.readdress_eq (h : TablesSettled parse cwd env c) {n w : Str}
    (hn : n ∈ owners cwd env c.path)
    (hw : LeadsTo parse (env.project n) c.type ((addressOf c).getD []) w) (rg : Ranges) :
    readdress parse cwd env rg c.path c.type (addressOf c) = some w ∧
      readdress parse cwd env rg c.path c.type (some w) = some w := by
  constructor
  · rcases @readdress_cases parse cwd env c.path c.type (addressOf c) rg with
      ⟨hnil, -⟩ | ⟨n', hn', ⟨w', hw', he⟩ | ⟨hno, he⟩⟩
    · rw [hnil] at hn
      cases hn
    · rw [he, h.agree n hn w hw n' hn' w' hw']
    · rw [he, h.everywhere n hn w hw n' hn' hno]
  · rcases @readdress_cases parse cwd env c.path c.type (some w) rg with
      ⟨-, he⟩ | ⟨n', hn', ⟨w', hw', he⟩ | ⟨-, he⟩⟩
    · exact he
    · rw [he, h.final n hn w hw n' hn' w' hw']
    · exact he

theorem settled_iff :
    (∀ r₁ r₂ r₃, translated parse cwd env r₃ (translated parse cwd env r₂ c) =
      translated parse cwd env r₁ c) ↔ TablesSettled parse cwd env c := by
  simp only [translated_eq_iff]
  constructor
  · intro h
    -- one translation already gives the same in every order
    have hone : ∀ r r', readdress parse cwd env r c.path c.type (addressOf c) =
        readdress parse cwd env r' c.path c.type (addressOf c) :=
      fun r r' => (h r r r).symm.trans (h r' r r)
    refine ⟨fun n hn w hw n' hn' w' hw' => ?_, fun n hn w hw n' hn' hno => ?_,
      fun n hn w hw n' hn' w' hw' => ?_⟩
    · obtain ⟨r, hr⟩ := exists_readdress hn hw
      obtain ⟨r', hr'⟩ := exists_readdress hn' hw'
      exact Option.some.inj (hr'.symm.trans ((hone r' r).trans hr))
    · obtain ⟨r, hr⟩ := exists_readdress hn hw
      obtain ⟨r', hr'⟩ := exists_readdress_stay hn' hno
      exact hr'.symm.trans ((hone r' r).trans hr)
    · obtain ⟨r, hr⟩ := exists_readdress hn hw
      obtain ⟨r', hr'⟩ := @exists_readdress parse cwd env c.path c.type (some w) _ _ hn' hw'
      have htwice := h r r r'
      rw [hr, hr'] at htwice
      exact Option.some.inj htwice
  · intro h r₁ r₂ r₃
    by_cases hex : ∃ n ∈ owners cwd env c.path, ∃ w,
        LeadsTo parse (env.project n) c.type ((addressOf c).getD []) w
    · obtain ⟨n, hn, w, hw⟩ := hex
      rw [(h.readdress_eq hn hw r₂).1, (h.readdress_eq hn hw r₃).2, (h.readdress_eq hn hw r₁).1]
    · -- no entry applies: every translation leaves the address
      have hstay : ∀ rg, readdress parse cwd env rg c.path c.type (addressOf c) = addressOf c := by
        intro rg
        rcases @readdress_cases parse cwd env c.path c.type (addressOf c) rg with
          ⟨-, he⟩ | ⟨n', hn', ⟨w', hw', -⟩ | ⟨-, he⟩⟩
        · exact he
        · exact absurd ⟨n', hn', w', hw'⟩ hex
        · exact he
      rw [hstay, hstay, hstay]

theorem hostPortEndpoint_localAddr {hp : Int} (h : IsInt hp) :
    hostPortEndpoint (localAddr hp) = some ⟨localhost, hp, some⟩ := by
  have hcut : Url.cut ':' (localAddr hp) = (localhost, some (itoa hp)) :=
    Url.cut_append_cons (by decide) _
  unfold hostPortEndpoint
  simp only [hcut, parseInt_itoa h, Option.map_some]

theorem localAddr_inj {a b : Int} (ha : IsInt a) (hb : IsInt b) (h : localAddr a = localAddr b) :
    a = b := by
  have hread := hostPortEndpoint_localAddr ha
  rw [h, hostPortEndpoint_localAddr hb] at hread
  injection hread with hread
  injection hread with _ hport _
  exact hport.symm

/-- A bare `host:port` is replaced whole. -/
theorem put_of_hostPortEndpoint {addr : Str} {ep : Endpoint} (h : hostPortEndpoint addr = some ep) :
    ep.put = some := by
  unfold hostPortEndpoint at h
  split at h
  · cases h
  · obtain ⟨port, -, rfl⟩ := Option.map_eq_some_iff.mp h
    rfl

/-- The entries for a `host:port`. -/
theorem leadsTo_hostPort_iff {proj : ComposeProject} {type : StoreType}
    (htype : type = .redis ∨ type = .mongodb) {addr w : Str} {ep : Endpoint}
    (hep : hostPortEndpoint addr = some ep) :
    LeadsTo parse proj type addr w ↔
      ∃ hp, proj.published ep.host ep.port = some hp ∧ w = localAddr hp := by
  have hof : endpointOf parse type addr = hostPortEndpoint addr := by
    rcases htype with rfl | rfl <;> rfl
  constructor
  · intro h
    cases h with
    | @port _ _ _ ep' hp hep' hhp hw =>
        rw [hof, hep] at hep'
        cases hep'
        rw [put_of_hostPortEndpoint hep] at hw
        exact ⟨hp, hhp, (Option.some.inj hw).symm⟩
    | mount hm hpath => rcases htype with htype | htype <;> cases htype
  · intro ⟨hp, hhp, hw⟩
    refine .port (hof.trans hep) hhp ?_
    rw [put_of_hostPortEndpoint hep, hw]

/-- **What settles a `host:port`** in a project that owns its component alone: no service of the
    project that is called `localhost` publishes the published port elsewhere. -/
theorem settled_hostPort_iff {n addr : Str} {ep : Endpoint} (hn : owners cwd env c.path = [n])
    (htype : c.type = .redis ∨ c.type = .mongodb) (haddr : addressOf c = some addr)
    (hep : hostPortEndpoint addr = some ep) :
    TablesSettled parse cwd env c ↔
      ∀ hp, (env.project n).published ep.host ep.port = some hp →
        ∀ hp', (env.project n).published localhost hp = some hp' → hp' = hp := by
  have hfirst : ∀ w, LeadsTo parse (env.project n) c.type ((addressOf c).getD []) w ↔
      ∃ hp, (env.project n).published ep.host ep.port = some hp ∧ w = localAddr hp := by
    intro w
    rw [haddr]
    exact leadsTo_hostPort_iff htype hep
  have hsecond : ∀ hp, IsInt hp → ∀ w, LeadsTo parse (env.project n) c.type (localAddr hp) w ↔
      ∃ hp', (env.project n).published localhost hp = some hp' ∧ w = localAddr hp' :=
    fun hp hint w => leadsTo_hostPort_iff htype (hostPortEndpoint_localAddr hint)
  have hmem : n ∈ owners cwd env c.path := hn ▸ List.mem_singleton_self n
  constructor
  · intro h hp hhp hp' hhp'
    have hint := ComposeProject.isInt_published hhp
    have hw := h.final n hmem _ ((hfirst _).mpr ⟨hp, hhp, rfl⟩) n hmem _
      ((hsecond hp hint _).mpr ⟨hp', hhp', rfl⟩)
    exact localAddr_inj (ComposeProject.isInt_published hhp') hint hw
  · intro h
    refine ⟨fun m hm w hw m' hm' w' hw' => ?_, fun m hm w hw m' hm' hno => ?_,
      fun m hm w hw m' hm' w' hw' => ?_⟩
    all_goals
      rw [hn, List.mem_singleton] at hm hm'
      subst hm hm'
    · obtain ⟨hp, hhp, rfl⟩ := (hfirst w).mp hw
      obtain ⟨hp', hhp', rfl⟩ := (hfirst w').mp hw'
      rw [hhp] at hhp'
      cases hhp'
      rfl
    · exact absurd hw (hno w)
    · obtain ⟨hp, hhp, rfl⟩ := (hfirst w).mp hw
      have hint := ComposeProject.isInt_published hhp
      obtain ⟨hp', hhp', rfl⟩ := (hsecond hp hint w').mp hw'
      rw [h hp hhp hp' hhp']

theorem translate_under {src : Sources} {rg : Ranges} {d : StoreComponent} (h : d.path ≠ []) :
    translate (src.under parse env rg) d = translated parse src.fs.cwd env rg d := if_neg h

/-- **Both routes to the active store give the same component**, in whatever orders the maps are
    gone through, exactly if the tables leave nothing open for it. -/
theorem store_routes_agree_iff {src : Sources} {entries : List ConnEntry} {e : ConnEntry}
    (hid : e.id ≠ []) (he : entries.find? (fun x => decide (x.id = e.id)) = some e)
    (hauto : e.source ≠ .manual)
    (hc : (detect src.reader src.fs [e.path]).find? (isEntryOf src e) = some c) :
    (∀ r₁ r₂ r₃,
      resolveBy (src.under parse env r₂) (src.under parse env r₃) entries
          (some (withSecrets src.secretsSvc c)) e.id =
        resolveBy (src.under parse env r₁) (src.under parse env r₁) entries
          (some (withSecrets src.secretsSvc c)) []) ↔
      TablesSettled parse src.fs.cwd env (withSecrets src.secretsSvc c) := by
  obtain ⟨data, hfile, -⟩ := mem_detect (List.mem_of_find?_eq_some hc)
  have hpath : c.path ≠ [] := by
    intro hnil
    have habs := hfile.abs
    rw [hnil] at habs
    cases habs
  rw [← settled_iff]
  refine forall_congr' fun r₁ => forall_congr' fun r₂ => forall_congr' fun r₃ => ?_
  have hactive : resolveBy (src.under parse env r₁) (src.under parse env r₁) entries
      (some (withSecrets src.secretsSvc c)) [] =
        some (some (translated parse src.fs.cwd env r₁ (withSecrets src.secretsSvc c))) := by
    have hs : (withSecrets src.secretsSvc c).path ≠ [] := hpath
    rw [resolveBy, if_pos rfl, Option.map_some, translate_under hs]
  have hentry : resolveBy (src.under parse env r₂) (src.under parse env r₃) entries
      (some (withSecrets src.secretsSvc c)) e.id =
        some (some (translated parse src.fs.cwd env r₃
          (translated parse src.fs.cwd env r₂ (withSecrets src.secretsSvc c)))) := by
    have hfor : (componentForEntry (src.under parse env r₂) e none).1 =
        translated parse src.fs.cwd env r₂ (withSecrets src.secretsSvc c) := by
      have hc' : ((none : Option (List StoreComponent)).getD
          (detect (src.under parse env r₂).reader (src.under parse env r₂).fs [e.path])).find?
          (isEntryOf (src.under parse env r₂) e) = some c := hc
      rw [componentForEntry_of_find hauto hc']
      exact translate_under hpath
    have hs : (translated parse src.fs.cwd env r₂ (withSecrets src.secretsSvc c)).path ≠ [] := hpath
    rw [resolveBy, if_neg hid, componentFor, he, Option.map_some, hfor, Option.map_some,
      translate_under hs, Option.map_some]
  rw [hactive, hentry, Option.some.injEq, Option.some.injEq]

end Routes

/-! ## 6. A file below a mount -/

/-- A sqlite store in a file of the container. -/
def sqliteDoc : Str :=
  document ["kind: Component", "metadata:", "  name: a", "spec:", "  type: state.sqlite",
    "  metadata:", "  - name: connectionString", "    value: /app/x.db"]

def sqliteSources : Sources where
  reader := {
    rawComponent := fun _ => some ⟨componentKind, "a".toList, StoreType.sqlite.text, [],
      [(metaKeyText .connectionString, "/app/x.db".toList)]⟩
    refDoc := fun _ => some ⟨[], [], []⟩ }
  fs := oneFile sqliteDoc
  secretsSvc := none
  translated := StoreComponent.metadata

/-- The store it declares. -/
def sqliteStore : StoreComponent where
  name := "a".toList
  type := .sqlite
  version := []
  metadata := Dict.empty.put (metaKeyText .connectionString) "/app/x.db".toList
  secretRefs := .empty
  secretStore := []
  path := sYaml

def sqliteEntry : ConnEntry := { id := "i".toList, name := "a".toList, type := .sqlite, path := sYaml }

/-- A project that mounts a directory of the host at `/app`. -/
def mountedAt (source : Str) : ComposeEnv where
  projects := Dict.empty.put "p".toList
    ⟨.empty, Dict.empty.put "/app".toList source, ComposeProject.empty.isInt⟩
  pathProject := Dict.empty.put "/a".toList "p".toList

theorem find_sqliteStore : (detect sqliteSources.reader sqliteSources.fs [sYaml]).find?
    (isEntryOf sqliteSources sqliteEntry) = some sqliteStore := by decide +kernel

/-- An address that is looked up in the one mount. -/
theorem leadsTo_mountedAt {parse : Str → Option NetURL} {source addr w : Str}
    (h : LeadsTo parse ((mountedAt source).project "p".toList) .sqlite addr w) :
    (throughMount (trimSlash (Url.cut '?' addr).1) ("/app".toList, source)).map (withQuery addr) =
      some w := by
  cases h with
  | port hep _ _ => cases hep
  | mount hm hpath =>
      rw [List.mem_singleton.mp hm] at hpath
      rw [hpath]
      rfl

theorem store_routes_agree_iff_mounted :
    sqliteEntry.id ≠ [] ∧ ∀ r₁ r₂ r₃,
      resolveBy (sqliteSources.under (fun _ => none) (mountedAt "/h".toList) r₂)
          (sqliteSources.under (fun _ => none) (mountedAt "/h".toList) r₃) [sqliteEntry]
          (some (withSecrets none sqliteStore)) sqliteEntry.id =
        resolveBy (sqliteSources.under (fun _ => none) (mountedAt "/h".toList) r₁)
          (sqliteSources.under (fun _ => none) (mountedAt "/h".toList) r₁) [sqliteEntry]
          (some (withSecrets none sqliteStore)) [] := by
  have howners : owners ['/'] (mountedAt "/h".toList) sYaml = ["p".toList] := by decide +kernel
  have hone : ∀ n ∈ owners ['/'] (mountedAt "/h".toList) sYaml, ∀ w,
      LeadsTo (fun _ => none) ((mountedAt "/h".toList).project n) .sqlite "/app/x.db".toList w →
        w = "/h/x.db".toList := by
    intro n hn w hw
    rw [howners, List.mem_singleton] at hn
    subst hn
    have hfound := leadsTo_mountedAt hw
    have hval : (throughMount (trimSlash (Url.cut '?' "/app/x.db".toList).1)
        ("/app".toList, "/h".toList)).map (withQuery "/app/x.db".toList) =
          some "/h/x.db".toList := by decide +kernel
    exact Option.some.inj (hfound.symm.trans hval)
  refine ⟨List.cons_ne_nil _ _, ?_⟩
  refine (@store_routes_agree_iff (fun _ => none) (mountedAt "/h".toList) sqliteStore sqliteSources
    [sqliteEntry] sqliteEntry (List.cons_ne_nil _ _) rfl (by decide) find_sqliteStore).mpr ?_
  refine ⟨fun n hn w hw n' hn' w' hw' => ?_, fun n hn w hw n' hn' hno => ?_,
    fun n hn w hw n' hn' w' hw' => ?_⟩
  · exact (hone n' hn' w' hw').trans (hone n hn w hw).symm
  · -- the one owner has an entry
    have hn : n ∈ owners ['/'] (mountedAt "/h".toList) sYaml := hn
    have hn' : n' ∈ owners ['/'] (mountedAt "/h".toList) sYaml := hn'
    rw [howners, List.mem_singleton] at hn hn'
    subst hn hn'
    exact absurd hw (hno w)
  · have hn' : n' ∈ owners ['/'] (mountedAt "/h".toList) sYaml := hn'
    have hw'' := hone n hn w hw
    rw [howners, List.mem_singleton] at hn'
    subst hn'
    rw [hw''] at hw'
    have hfound := leadsTo_mountedAt hw'
    have hval : (throughMount (trimSlash (Url.cut '?' "/h/x.db".toList).1)
        ("/app".toList, "/h".toList)).map (withQuery "/h/x.db".toList) = none := by decide +kernel
    rw [hval] at hfound
    cases hfound

/-- **The two routes lead to different files**: `/app` of the container is `/app/data` on the host,
    so a path that was translated once is below the mount again. -/
theorem store_routes_disagree :
    sqliteEntry.id ≠ [] ∧ sqliteEntry.source = .auto ∧
    (detect sqliteSources.reader sqliteSources.fs [sqliteEntry.path]).find?
      (isEntryOf sqliteSources sqliteEntry) = some sqliteStore ∧
    (resolveBy (sqliteSources.under (fun _ => none) (mountedAt "/app/data".toList) .sorted)
        (sqliteSources.under (fun _ => none) (mountedAt "/app/data".toList) .sorted) [sqliteEntry]
        (some (withSecrets none sqliteStore)) []).map (Option.map addressOf) =
      some (some (some "/app/data/x.db".toList)) ∧
    (resolveBy (sqliteSources.under (fun _ => none) (mountedAt "/app/data".toList) .sorted)
        (sqliteSources.under (fun _ => none) (mountedAt "/app/data".toList) .sorted) [sqliteEntry]
        (some (withSecrets none sqliteStore)) sqliteEntry.id).map (Option.map addressOf) =
      some (some (some "/app/data/data/x.db".toList)) := by
  refine ⟨List.cons_ne_nil _ _, rfl, find_sqliteStore, ?_, ?_⟩
  · decide +kernel
  · decide +kernel

end DevDashboard.Cmd
