/-
  File:      DevDashboard/StateStore/BulkGet.lean
  Subject:   BULK READS IN CHUNKS (`ccStore.BulkGet` and `bulkGetChunked` of
             `pkg/statestore/store.go`).

  The keys are asked for chunk by chunk. A chunk sets its own keys to nil and then takes over every
  response whose key was asked for in this chunk or an earlier one. What the backend answers may
  differ from call to call; as far as it is right, the result is that of point reads.

  * `get_request`, `merge_ok` -- what one chunk does to the map;
  * `bulkLoop_spec` -- the map holds, after every chunk, the values of the keys asked for so far;
  * `bulkGetChunked_eq` -- so it is that of point reads, and an error is one that was reported.
-/
import DevDashboard.Lib.Dict
import DevDashboard.StateStore.Store

namespace DevDashboard.StateStore

open Lib

/-! ## 1. The loop -/

/-- `state.BulkGetResponse`, as far as it is read here. -/
structure BulkResponse where
  key : Str
  data : Option Bytes := none
  error : Str := []

/-- Why a bulk read fails: a call did, or the response for a key did. -/
inductive BulkError (ε : Type) where
  | call (e : ε)
  | entry (key text : Str)

/-- `state.BulkStore`: the answer to each call, by its number and the keys it asks for. -/
abbrev BulkStore (ε : Type) := Nat → List Str → Except ε (List BulkResponse)

/-- The map a bulk read fills; nil is `none`. -/
abbrev Values := Dict Str (Option Bytes)

/-- The keys of a chunk are set to nil. -/
def request (out : Values) (ks : List Str) : Values := ks.foldl (fun d k => d.put k none) out

section Loop

variable {ε : Type}

/-- The responses of a chunk, taken over one after another. -/
def merge : Values → List BulkResponse → Except (BulkError ε) Values
  | out, [] => .ok out
  | out, r :: rs =>
      if r.error ≠ [] then .error (.entry r.key r.error)
      else merge (if (out.get r.key).isSome then out.put r.key r.data else out) rs

/-- The loop of `bulkGetChunked`: `rest` are the keys from `start` on, `i` chunks were read. -/
def bulkLoop (bs : BulkStore ε) {chunk : Nat} (hc : 0 < chunk) (i : Nat) (rest : List Str)
    (out : Values) : Except (BulkError ε) Values :=
  if _h : rest = [] then .ok out
  else
    match bs i (rest.take chunk) with
    | .error e => .error (.call e)
    | .ok resp =>
        match merge (request out (rest.take chunk)) resp with
        | .error e => .error e
        | .ok out' => bulkLoop bs hc (i + 1) (rest.drop chunk) out'
  termination_by rest.length
  decreasing_by
    have := List.length_pos_iff.mpr _h
    simp only [List.length_drop]
    omega

/-- `bulkGetChunked`. -/
def bulkGetChunked (bs : BulkStore ε) (keys : List Str) {chunk : Nat} (hc : 0 < chunk) :
    Except (BulkError ε) Values :=
  bulkLoop bs hc 0 keys .empty

def bulkGetChunk : Nat := 100

theorem bulkGetChunk_pos : 0 < bulkGetChunk := by decide

/-- `ccStore.BulkGet` over a backend with a bulk read. -/
def bulkGet (bs : BulkStore ε) (keys : List Str) : Except (BulkError ε) Values :=
  bulkGetChunked bs keys bulkGetChunk_pos

end Loop

/-! ## 2. What is asked for and what is answered -/

/-- The keys of the call with number `j`. -/
def chunkAt (chunk : Nat) (keys : List Str) (j : Nat) : List Str :=
  (keys.drop (j * chunk)).take chunk

theorem chunkAt_zero (chunk : Nat) (keys : List Str) : chunkAt chunk keys 0 = keys.take chunk := by
  rw [chunkAt, Nat.zero_mul, List.drop_zero]

theorem chunkAt_drop (chunk : Nat) (keys : List Str) (j : Nat) :
    chunkAt chunk (keys.drop chunk) j = chunkAt chunk keys (j + 1) := by
  rw [chunkAt, chunkAt, List.drop_drop, Nat.succ_mul, Nat.add_comm chunk]

/-- A call failed, or one of its responses reports an error. -/
def Reported {ε : Type} : Except ε (List BulkResponse) → Prop
  | .error _ => True
  | .ok resp => ∃ r ∈ resp, r.error ≠ []

/-- The responses are right: every one carries the stored value of its key, and every key asked
    for that exists has one. There may be responses for other keys. -/
structure Answers (stored : Str → Option Bytes) (ks : List Str) (resp : List BulkResponse) :
    Prop where
  value : ∀ r ∈ resp, r.data = stored r.key
  complete : ∀ k ∈ ks, stored k ≠ none → ∃ r ∈ resp, r.key = k

/-- The map of point reads of some keys. -/
def PointReads (stored : Str → Option Bytes) (keys : List Str) (out : Values) : Prop :=
  ∀ k, out.get k = if k ∈ keys then some (stored k) else none

/-! ## 3. One chunk -/

theorem get_request (out : Values) (ks : List Str) (k : Str) :
    (request out ks).get k = if k ∈ ks then some none else out.get k := by
  unfold request
  induction ks generalizing out with
  | nil => rfl
  | cons x ks ih =>
      rw [List.foldl_cons, ih]
      by_cases hk : k ∈ ks
      · rw [if_pos hk, if_pos (List.mem_cons_of_mem x hk)]
      · rw [if_neg hk]
        by_cases hx : k = x
        · subst hx
          rw [Dict.get_put_self, if_pos List.mem_cons_self]
        · rw [Dict.get_put_of_ne _ _ hx, if_neg (by simp [hx, hk])]

section Chunk

variable {ε : Type} {stored : Str → Option Bytes}

/-- **Responses without an error** go to the keys that are there. -/
theorem merge_ok {resp : List BulkResponse} (he : ∀ r ∈ resp, r.error = [])
    (hv : ∀ r ∈ resp, r.data = stored r.key) (out : Values) :
    ∃ out', @merge ε out resp = .ok out' ∧ ∀ k, out'.get k =
      if (out.get k).isSome ∧ ∃ r ∈ resp, r.key = k then some (stored k) else out.get k := by
  induction resp generalizing out with
  | nil => exact ⟨out, rfl, fun k => by simp⟩
  | cons r resp ih =>
      obtain ⟨he₀, he⟩ := List.forall_mem_cons.mp he
      obtain ⟨hv₀, hv⟩ := List.forall_mem_cons.mp hv
      obtain ⟨out', hm, hget⟩ := ih he hv (if (out.get r.key).isSome then out.put r.key r.data
        else out)
      refine ⟨out', by rw [merge, if_neg (by simp [he₀]), hm], fun k => ?_⟩
      rw [hget k]
      by_cases hk : k = r.key
      · subst hk
        by_cases hs : (out.get r.key).isSome = true
        · simp [hs, hv₀]
        · simp [hs]
      · have hget' : (if (out.get r.key).isSome then out.put r.key r.data else out).get k =
            out.get k := by
          split
          · exact Dict.get_put_of_ne _ _ hk
          · rfl
        simp [hget', Ne.symm hk]

theorem merge_error {resp : List BulkResponse} (h : ∃ r ∈ resp, r.error ≠ []) (out : Values) :
    ∃ e, @merge ε out resp = .error e := by
  induction resp generalizing out with
  | nil =>
      obtain ⟨r, hr, -⟩ := h
      cases hr
  | cons r resp ih =>
      by_cases hr : r.error = []
      · obtain ⟨x, hx, hxe⟩ := h
        have htail : x ∈ resp := (List.mem_cons.mp hx).resolve_left fun he => hxe (he ▸ hr)
        obtain ⟨e, hm⟩ := ih ⟨x, htail, hxe⟩ (if (out.get r.key).isSome then out.put r.key r.data
          else out)
        exact ⟨e, by rw [merge, if_neg (by simp [hr]), hm]⟩
      · exact ⟨_, by rw [merge, if_pos hr]⟩

/-- **One chunk**: from the values of the keys asked for so far to those of its keys, too. A key
    of an earlier chunk that is answered again is answered with its value. -/
theorem chunk_pointReads {seen ks : List Str} {out : Values} {resp : List BulkResponse}
    (hout : PointReads stored seen out) (he : ∀ r ∈ resp, r.error = [])
    (ha : Answers stored ks resp) :
    ∃ out', @merge ε (request out ks) resp = .ok out' ∧
      PointReads stored (seen ++ ks) out' := by
  obtain ⟨out', hm, hget⟩ := @merge_ok ε _ _ he ha.value (request out ks)
  refine ⟨out', hm, fun k => ?_⟩
  rw [hget k, get_request, hout k]
  by_cases hk : k ∈ ks
  · rw [if_pos (List.mem_append_right seen hk), if_pos hk]
    split
    · rfl
    · -- asked for and not answered: it does not exist
      rename_i hr
      have hnone : stored k = none := by
        by_contra hne
        exact hr ⟨rfl, ha.complete k hk hne⟩
      rw [hnone]
  · by_cases hs : k ∈ seen
    · rw [if_pos (List.mem_append_left ks hs), if_neg hk, if_pos hs]
      split <;> rfl
    · simp [hk, hs]

end Chunk

/-! ## 4. All chunks -/

section Run

variable {ε : Type} {stored : Str → Option Bytes} {bs : BulkStore ε} {chunk : Nat}

/-- The calls for the keys of `rest`, from call `i` on: `P` of one of them. -/
def SomeCall (chunk i : Nat) (rest : List Str) (P : Nat → List Str → Prop) : Prop :=
  ∃ j, j * chunk < rest.length ∧ P (i + j) (chunkAt chunk rest j)

theorem someCall_cons {i : Nat} {rest : List Str} (h : rest ≠ [])
    {P : Nat → List Str → Prop} :
    SomeCall chunk i rest P ↔
      P i (rest.take chunk) ∨ SomeCall chunk (i + 1) (rest.drop chunk) P := by
  have hlen := List.length_pos_iff.mpr h
  constructor
  · rintro ⟨j, hj, hp⟩
    cases j with
    | zero =>
        rw [chunkAt_zero] at hp
        exact .inl hp
    | succ j =>
        refine .inr ⟨j, ?_, ?_⟩
        · rw [Nat.succ_mul] at hj
          rw [List.length_drop]
          omega
        · rw [chunkAt_drop, Nat.add_assoc, Nat.add_comm 1]
          exact hp
  · rintro (hp | ⟨j, hj, hp⟩)
    · refine ⟨0, by simpa using hlen, ?_⟩
      rw [chunkAt_zero]
      exact hp
    · refine ⟨j + 1, ?_, ?_⟩
      · rw [List.length_drop] at hj
        rw [Nat.succ_mul]
        omega
      · rw [← chunkAt_drop, Nat.add_comm j, ← Nat.add_assoc]
        exact hp

/-- **The loop**: it fails if a call reports an error, and otherwise holds the values of all the
    keys asked for. -/
theorem bulkLoop_spec (hc : 0 < chunk) {i : Nat} {rest seen : List Str} {out : Values}
    (hout : PointReads stored seen out)
    (ha : ¬ SomeCall chunk i rest fun j ks => ∃ resp, bs j ks = .ok resp ∧
      ¬ Answers stored ks resp) :
    (SomeCall chunk i rest (fun j ks => Reported (bs j ks)) ∧
        ∃ e, bulkLoop bs hc i rest out = .error e) ∨
      (¬ SomeCall chunk i rest (fun j ks => Reported (bs j ks)) ∧
        ∃ out', bulkLoop bs hc i rest out = .ok out' ∧ PointReads stored (seen ++ rest) out') := by
  -- on the keys that are left; `PointReads` carries it from chunk to chunk
  rw [bulkLoop]
  by_cases h : rest = []
  · subst h
    exact .inr ⟨fun ⟨j, hj, _⟩ => absurd hj (Nat.not_lt_zero _), out, rfl, by simpa using hout⟩
  · rw [someCall_cons h, not_or] at ha
    rw [someCall_cons h, dif_neg h]
    cases hb : bs i (rest.take chunk) with
    | error e => exact .inl ⟨.inl trivial, _, rfl⟩
    | ok resp =>
        have hans : Answers stored (rest.take chunk) resp := by
          by_contra hn
          exact ha.1 ⟨resp, hb, hn⟩
        by_cases hr : ∃ r ∈ resp, r.error ≠ []
        · obtain ⟨e, hm⟩ := @merge_error ε _ hr (request out (rest.take chunk))
          exact .inl ⟨.inl hr, e, by simp only [hm]⟩
        · have he : ∀ r ∈ resp, r.error = [] := fun r hrm => by
            by_contra hne
            exact hr ⟨r, hrm, hne⟩
          obtain ⟨out', hm, hout'⟩ := @chunk_pointReads ε _ _ _ _ _ hout he hans
          have hlen : (rest.drop chunk).length < rest.length := by
            have := List.length_pos_iff.mpr h
            rw [List.length_drop]
            omega
          simp only [hm]
          rcases bulkLoop_spec hc hout' ha.2 with ⟨hsome, herr⟩ | ⟨hnone, out'', hok, hreads⟩
          · exact .inl ⟨.inr hsome, herr⟩
          · refine .inr ⟨not_or.mpr ⟨hr, hnone⟩, out'', hok, ?_⟩
            rwa [List.append_assoc, List.take_append_drop] at hreads
  termination_by rest.length

/-- **A chunked bulk read is point reads.** For every backend whose answers are right, whatever
    their order and the chunk size: it fails exactly if a call or a response reports an error,
    and otherwise the map has exactly the keys that were asked for, each with its stored value. -/
theorem bulkGetChunked_eq (hc : 0 < chunk) {keys : List Str}
    (ha : ∀ j, j * chunk < keys.length → ∀ resp, bs j (chunkAt chunk keys j) = .ok resp →
      Answers stored (chunkAt chunk keys j) resp) :
    ((∃ e, bulkGetChunked bs keys hc = .error e) ↔
        ∃ j, j * chunk < keys.length ∧ Reported (bs j (chunkAt chunk keys j))) ∧
      ∀ out, bulkGetChunked bs keys hc = .ok out → PointReads stored keys out := by
  have hempty : PointReads stored [] .empty := fun k => by simp
  have hspec := @bulkLoop_spec ε stored bs chunk hc 0 keys [] .empty hempty (by
    rintro ⟨j, hj, resp, hok, hn⟩
    rw [Nat.zero_add] at hok
    exact hn (ha j hj resp hok))
  simp only [SomeCall, Nat.zero_add, List.nil_append] at hspec
  unfold bulkGetChunked
  rcases hspec with ⟨hsome, e, herr⟩ | ⟨hnone, out, hok, hreads⟩
  · rw [herr]
    exact ⟨⟨fun _ => hsome, fun _ => ⟨e, rfl⟩⟩, fun out h => by cases h⟩
  · rw [hok]
    refine ⟨⟨fun ⟨e, h⟩ => (by cases h), fun h => absurd h hnone⟩, fun out' h => ?_⟩
    exact Except.ok.inj h ▸ hreads

/-- Two keys, one of them missing, in chunks of one: the second call answers the first key, too. -/
theorem bulkGetChunked_eq_two :
    let stored : Str → Option Bytes := fun k => if k = "a".toList then some [1] else none
    let bs : BulkStore Unit := fun _ _ => .ok [{ key := "a".toList, data := some [1] }]
    ((∃ e, bulkGetChunked bs ["a".toList, "b".toList] Nat.one_pos = .error e) ↔
        ∃ j, j * 1 < 2 ∧ Reported (bs j (chunkAt 1 ["a".toList, "b".toList] j))) ∧
      ∀ out, bulkGetChunked bs ["a".toList, "b".toList] Nat.one_pos = .ok out →
        PointReads stored ["a".toList, "b".toList] out := by
  refine bulkGetChunked_eq Nat.one_pos fun j hj resp hok => ?_
  obtain rfl := Except.ok.inj hok
  refine ⟨fun r hr => ?_, fun k _ hk => ?_⟩
  · obtain rfl := List.mem_singleton.mp hr
    rfl
  · refine ⟨_, List.mem_singleton_self _, ?_⟩
    by_contra hne
    exact hk (if_neg (Ne.symm hne))

end Run

end DevDashboard.StateStore
