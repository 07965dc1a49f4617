/-
  File:      DevDashboard/Workflow/Remove.lean
  Subject:   REMOVING A WORKFLOW (`pkg/workflow/remove.go`, `removal.go`).

  A removal goes to the app's sidecar (terminate, purge) or, forced or with no healthy sidecar,
  straight to the state store (force delete). What the outside answers during one removal is an
  `Env`: the HTTP client, the key scan and each single delete may fail.
-/
import DevDashboard.Lib.Url
import DevDashboard.Workflow.Types
import DevDashboard.StateStore.Store

namespace DevDashboard.Workflow

open Lib Lib.Url StateStore
open Lib.Like (like)

/-! ## 1. Targets, results, mechanisms -/

structure RemoveTarget where
  appID : Str
  instanceID : Str
  status : Status := .other []
  httpPort : Int := 0
  daprHTTPBaseURL : Str := []
  healthy : Bool := false
  /-- `Namespace`, empty for host-scanned apps -/
  ns : Str := []

inductive Mechanism where
  | terminateThenPurge
  | purge
  | force
  deriving DecidableEq

structure RemoveResult where
  instanceID : Str
  /-- the empty string is `none` -/
  mechanism : Option Mechanism := none
  ok : Bool := false
  error : Str := []
  deriving DecidableEq

/-- `SelectMechanism`. -/
def selectMechanism (status : Status) (sidecarHealthy force : Bool) : Mechanism :=
  if force || !sidecarHealthy then .force
  else if status.isTerminal then .purge
  else .terminateThenPurge

/-- `Remover`: whether it has a state store, and the store's namespace. -/
structure Remover where
  hasStore : Bool
  ns : Str

def defaultNamespace : Str := ['d', 'e', 'f', 'a', 'u', 'l', 't']

/-- `NewRemover`. -/
def newRemover (hasStore : Bool) (ns : Str) : Remover :=
  ⟨hasStore, if ns = [] then defaultNamespace else ns⟩

/-! ## 2. What the outside answers -/

structure Response where
  statusCode : Nat
  /-- at most the first 512 bytes of the body -/
  body : Str

/-- What one `Delete` does: a failed one may have removed the key all the same. -/
inductive DeleteOutcome where
  | ok
  | fail (removed : Bool) (err : Str)

/-- The answers of the outside during one removal. -/
structure Env (A : Type) where
  readAuthority : Str → Option A
  /-- the text of `url.Parse`'s error -/
  parseError : Str → Str
  /-- `client.Do` -/
  exchange : URL A → Except Str Response
  /-- `Keys` returns this error -/
  keysErr : Option Str
  delete : Str → DeleteOutcome

/-! ## 3. Terminate and purge -/

inductive Action where
  | terminate
  | purge
  deriving DecidableEq

def Action.text : Action → Str
  | .terminate => ['t', 'e', 'r', 'm', 'i', 'n', 'a', 't', 'e']
  | .purge => ['p', 'u', 'r', 'g', 'e']

def apiVersion : Str := ['v', '1', '.', '0', '-', 'b', 'e', 't', 'a', '1']
def workflowsSegment : Str := ['w', 'o', 'r', 'k', 'f', 'l', 'o', 'w', 's']

/-- `WorkflowComponent`. -/
def workflowComponent : Str := ['d', 'a', 'p', 'r']

/-- `http://127.0.0.1:` -/
def loopbackBase : Str := "http://127.0.0.1:".toList

/-- The base URL of `post`. -/
def postBase (t : RemoveTarget) : Str :=
  if t.daprHTTPBaseURL = [] then loopbackBase ++ (toString t.httpPort).toList
  else t.daprHTTPBaseURL

/-- What `post` appends to the base: the instance id goes in as it is. -/
def postPath (instanceID : Str) (action : Action) : Str :=
  '/' :: apiVersion ++ '/' :: workflowsSegment ++ '/' :: workflowComponent ++ '/' ::
    (instanceID ++ '/' :: action.text)

/-- `post`: the request handed to the client, if any, and the error, if any. -/
def post {A : Type} (env : Env A) (t : RemoveTarget) (action : Action) :
    Option (URL A) × Option Str :=
  let u := postBase t ++ postPath t.instanceID action
  match parse env.readAuthority u with
  | none => (none, some (env.parseError u))
  | some url =>
      match env.exchange url with
      | .error e => (some url, some e)
      | .ok resp =>
          if resp.statusCode < 200 ∨ 300 ≤ resp.statusCode then
            (some url, some (action.text ++ ": status ".toList ++
              (toString resp.statusCode).toList ++ ": ".toList ++ resp.body))
          else (some url, none)

/-! ## 4. Force delete -/

def errNoStateStore : Str := "force delete unavailable: no state store".toList

/-- `delete %s: %w` -/
def deleteError (k err : Str) : Str := "delete ".toList ++ k ++ ": ".toList ++ err

/-- The delete loop: it stops at the first error. -/
def deleteKeys (del : Str → DeleteOutcome) : List Str → Content → Content × Option Str
  | [], c => (c, none)
  | k :: ks, c =>
      match del k with
      | .ok => deleteKeys del ks (c.delete k)
      | .fail removed err => (if removed then c.delete k else c, some (deleteError k err))

/-- The namespace of a force delete: the app's own, else the store's. -/
def deleteNamespace (r : Remover) (t : RemoveTarget) : Str := if t.ns = [] then r.ns else t.ns

/-- `forceDelete`: what is left in the store, and the error, if any. -/
def forceDelete {A : Type} (env : Env A) (r : Remover) (c : Content) (t : RemoveTarget) :
    Content × Option Str :=
  if r.hasStore then
    match env.keysErr with
    | some err => (c, some err)
    | none =>
        deleteKeys env.delete
          (c.keysLike (instanceKeyPattern (deleteNamespace r t) t.appID t.instanceID)) c
  else (c, some errNoStateStore)

/-! ## 5. `Remove` and `RemoveMany` -/

/-- What a removal did: the store's content, the requests sent, the result. -/
structure Removal (A : Type) where
  content : Content
  sent : List (URL A)
  result : RemoveResult

/-- `Remove`. -/
def remove {A : Type} (env : Env A) (r : Remover) (c : Content) (t : RemoveTarget)
    (force : Bool) : Removal A :=
  let reachable := t.healthy && (decide (0 < t.httpPort) || t.daprHTTPBaseURL ≠ [])
  let mech := selectMechanism t.status reachable force
  let finish (c : Content) (sent : List (URL A)) (err : Option Str) : Removal A :=
    ⟨c, sent, ⟨t.instanceID, some mech, err.isNone, err.getD []⟩⟩
  match mech with
  | .purge =>
      let p := post env t .purge
      finish c p.1.toList p.2
  | .terminateThenPurge =>
      let q := post env t .terminate
      match q.2 with
      | some err => finish c q.1.toList (some err)
      | none =>
          let p := post env t .purge
          finish c (q.1.toList ++ p.1.toList) p.2
  | .force =>
      let d := forceDelete env r c t
      finish d.1 [] d.2

/-- `RemoveMany`: one removal after the other. `envs n` is the outside when `n` targets
    are still to come. -/
def removeMany {A : Type} (r : Remover) (force : Bool) (envs : Nat → Env A) :
    List RemoveTarget → Content → Content × List (Removal A)
  | [], c => (c, [])
  | t :: ts, c =>
      let res := remove (envs ts.length) r c t force
      let rest := removeMany r force envs ts res.content
      (rest.1, res :: rest.2)

/-! ## 6. What the parts do -/

theorem deleteKeys_get_of_not_mem {del : Str → DeleteOutcome} {ks : List Str} {c : Content}
    {k : Str} (h : k ∉ ks) : (deleteKeys del ks c).1.get k = c.get k := by
  induction ks generalizing c with
  | nil => rfl
  | cons x ks ih =>
      have hx : k ≠ x := fun he => h (he ▸ List.mem_cons_self)
      unfold deleteKeys
      cases del x with
      | ok =>
          exact (ih fun hm => h (List.mem_cons_of_mem x hm)).trans (Content.get_delete_of_ne hx)
      | fail removed err =>
          cases removed with
          | true => exact Content.get_delete_of_ne hx
          | false => rfl

/-- A delete loop that reports no error has gone through with its first key. -/
theorem deleteKeys_cons_of_ok {del : Str → DeleteOutcome} {x : Str} {ks : List Str} {c : Content}
    (h : (deleteKeys del (x :: ks) c).2 = none) :
    deleteKeys del (x :: ks) c = deleteKeys del ks (c.delete x) := by
  rw [deleteKeys] at h
  cases hx : del x with
  | ok => rw [deleteKeys, hx]
  | fail removed err =>
      rw [hx] at h
      cases h

/-- A delete loop that reports no error has removed every key it was given. -/
theorem deleteKeys_get_of_ok {del : Str → DeleteOutcome} {ks : List Str} {c : Content}
    (h : (deleteKeys del ks c).2 = none) {k : Str} :
    (deleteKeys del ks c).1.get k = if k ∈ ks then none else c.get k := by
  induction ks generalizing c with
  | nil => rfl
  | cons x ks ih =>
      have hstep := deleteKeys_cons_of_ok h
      rw [hstep] at h ⊢
      rw [ih h]
      by_cases hk : k = x
      · subst hk
        simp [Content.get_delete_self]
      · simp [hk, Content.get_delete_of_ne hk]

theorem deleteKeys_entries_of_ok {del : Str → DeleteOutcome} {ks : List Str} {c : Content}
    (h : (deleteKeys del ks c).2 = none) :
    (deleteKeys del ks c).1.entries = c.entries.filter fun e => e.1 ∉ ks := by
  induction ks generalizing c with
  | nil => simp [deleteKeys]
  | cons x ks ih =>
      have hstep := deleteKeys_cons_of_ok h
      rw [hstep] at h ⊢
      rw [ih h, Content.delete, List.filter_filter]
      refine List.filter_congr fun e _ => ?_
      simp [Bool.and_comm]

/-- **What a force delete leaves alone**: every key its pattern does not match. -/
theorem forceDelete_get_of_not_like {A : Type} {env : Env A} {r : Remover} {c : Content}
    {t : RemoveTarget} {k : Str}
    (h : like (instanceKeyPattern (deleteNamespace r t) t.appID t.instanceID) k = false) :
    (forceDelete env r c t).1.get k = c.get k := by
  unfold forceDelete
  split
  · cases env.keysErr with
    | some err => rfl
    | none =>
        refine deleteKeys_get_of_not_mem fun hm => ?_
        rw [(Content.mem_keysLike.mp hm).2] at h
        cases h
  · rfl

/-- A force delete that reports success has gone through the keys its pattern matches. -/
theorem forceDelete_of_ok {A : Type} {env : Env A} {r : Remover} {c : Content} {t : RemoveTarget}
    (h : (forceDelete env r c t).2 = none) :
    forceDelete env r c t = deleteKeys env.delete
      (c.keysLike (instanceKeyPattern (deleteNamespace r t) t.appID t.instanceID)) c := by
  unfold forceDelete at h ⊢
  split at h
  · rename_i hs
    rw [if_pos hs]
    cases hk : env.keysErr with
    | some err =>
        rw [hk] at h
        cases h
    | none => rfl
  · cases h

/-- **A force delete that reports success** has removed every key its pattern matches. -/
theorem forceDelete_get_of_ok {A : Type} {env : Env A} {r : Remover} {c : Content}
    {t : RemoveTarget} (h : (forceDelete env r c t).2 = none) (k : Str) :
    (forceDelete env r c t).1.get k =
      if like (instanceKeyPattern (deleteNamespace r t) t.appID t.instanceID) k = true then none
      else c.get k := by
  have heq := forceDelete_of_ok h
  rw [heq] at h ⊢
  rw [deleteKeys_get_of_ok h]
  by_cases hl : like (instanceKeyPattern (deleteNamespace r t) t.appID t.instanceID) k = true
  · by_cases hm : k ∈ c.keys
    · rw [if_pos (Content.mem_keysLike.mpr ⟨hm, hl⟩), if_pos hl]
    · rw [if_neg fun h' => hm (Content.mem_keysLike.mp h').1, if_pos hl]
      exact Content.get_eq_none_iff.mpr hm
  · rw [if_neg fun h' => hl (Content.mem_keysLike.mp h').2, if_neg hl]

/-- **What a scan finds after a force delete that reports success**: what it found before, less
    what the delete's pattern matches. -/
theorem forceDelete_keysLike_of_ok {A : Type} {env : Env A} {r : Remover} {c : Content}
    {t : RemoveTarget} (h : (forceDelete env r c t).2 = none) (q : Str) :
    (forceDelete env r c t).1.keysLike q = (c.keysLike q).filter fun k =>
      !like (instanceKeyPattern (deleteNamespace r t) t.appID t.instanceID) k := by
  have heq := forceDelete_of_ok h
  rw [heq] at h ⊢
  generalize instanceKeyPattern (deleteNamespace r t) t.appID t.instanceID = p at h ⊢
  have hfilter : (c.entries.filter fun e => e.1 ∉ c.keysLike p) =
      c.entries.filter fun e => !like p e.1 := by
    refine List.filter_congr fun e he => ?_
    have hm : e.1 ∈ c.keys := List.mem_map_of_mem he
    cases hl : like p e.1 with
    | true => simp [Content.mem_keysLike, hm, hl]
    | false => simp [Content.mem_keysLike, hl]
  rw [Content.keysLike, Content.keys, deleteKeys_entries_of_ok h, hfilter, Content.keysLike,
    Content.keys, List.filter_map, List.filter_map, List.filter_map, List.filter_filter,
    List.filter_filter]
  congr 1
  refine List.filter_congr fun e _ => ?_
  simp [Bool.and_comm]

/-- A removal with the force mechanism is a force delete. -/
theorem remove_of_force {A : Type} {env : Env A} {r : Remover} {c : Content} {t : RemoveTarget}
    {force : Bool} (h : (remove env r c t force).result.mechanism = some .force) :
    (remove env r c t force).content = (forceDelete env r c t).1 ∧
      (remove env r c t force).result.ok = (forceDelete env r c t).2.isNone := by
  unfold remove at h ⊢
  simp only at h ⊢
  split at h
  · rename_i hm
    rw [hm] at h
    cases h
  · rename_i hm
    split at h <;> · rw [hm] at h; cases h
  · rename_i hm
    exact ⟨rfl, rfl⟩

@[simp] theorem remove_instanceID {A : Type} (env : Env A) (r : Remover) (c : Content)
    (t : RemoveTarget) (force : Bool) :
    (remove env r c t force).result.instanceID = t.instanceID := by
  unfold remove
  simp only
  split
  · rfl
  · split <;> rfl
  · rfl

/-- `RemoveMany` reports one result per target, in order. -/
theorem removeMany_results {A : Type} (r : Remover) (force : Bool) (envs : Nat → Env A)
    (ts : List RemoveTarget) (c : Content) :
    (removeMany r force envs ts c).2.map (·.result.instanceID) = ts.map (·.instanceID) := by
  induction ts generalizing c with
  | nil => rfl
  | cons t ts ih => simp only [removeMany, List.map_cons, remove_instanceID, ih]

end DevDashboard.Workflow
