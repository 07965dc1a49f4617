/-
  File:      DevDashboard/Lib/Epochs.lean
  Subject:   LISTS THAT GROW WITHIN AN EPOCH.

  A register is rewritten again and again. Each version belongs to an epoch; within one epoch the
  list it holds only grows, an epoch once left does not come back, and the first element of the
  list says which epoch it is of.

  * `Consistent.write`, `Consistent.clear` -- every write keeps the versions written so far
    consistent;
  * `Consistent.getElem?_eq` -- what a version of the current epoch has, the current one has;
  * `Consistent.items_eq` -- a first element and a length determine the list.
-/
import Mathlib.Data.List.Basic

namespace DevDashboard.Lib.Epochs

variable {ε α : Type}

/-- One version: the epoch it belongs to and its list. -/
structure Version (ε α : Type) where
  epoch : ε
  items : List α

/-- What may be written: the current version grown, or the first version of an epoch never used;
    and no element that begins the lists of another epoch begins it. -/
structure Write (log : List (Version ε α)) (cur : Option (Version ε α)) (new : Version ε α) :
    Prop where
  place : (∃ c, cur = some c ∧ new.epoch = c.epoch ∧ c.items <+: new.items) ∨
    ∀ v ∈ log, v.epoch ≠ new.epoch
  mark : ∀ v ∈ log, ∀ a, v.items.head? = some a → new.items.head? = some a → v.epoch = new.epoch

/-- The versions written so far and the current one, if there is one. -/
structure Consistent (log : List (Version ε α)) (cur : Option (Version ε α)) : Prop where
  current : ∀ c, cur = some c → c ∈ log ∧ ∀ v ∈ log, v.epoch = c.epoch → v.items <+: c.items
  comparable : ∀ v ∈ log, ∀ w ∈ log, v.epoch = w.epoch → v.items <+: w.items ∨ w.items <+: v.items
  marks : ∀ v ∈ log, ∀ w ∈ log, ∀ a, v.items.head? = some a → w.items.head? = some a →
    v.epoch = w.epoch

namespace Consistent

variable {log : List (Version ε α)} {cur : Option (Version ε α)} {new v w : Version ε α}

theorem empty : Consistent ([] : List (Version ε α)) none := by
  constructor <;> simp

theorem clear (h : Consistent log cur) : Consistent log none :=
  ⟨fun _ hc => (nomatch hc), h.comparable, h.marks⟩

/-- After a write every version of its epoch is a beginning of it. -/
theorem prefix_new (h : Consistent log cur) (hw : Write log cur new) (hv : v ∈ log)
    (he : v.epoch = new.epoch) : v.items <+: new.items := by
  rcases hw.place with ⟨c, hc, hep, hp⟩ | hfresh
  · exact ((h.current c hc).2 v hv (he.trans hep)).trans hp
  · exact absurd he (hfresh v hv)

/-- **A write keeps the versions consistent.** -/
theorem write (h : Consistent log cur) (hw : Write log cur new) :
    Consistent (new :: log) (some new) := by
  refine ⟨fun c hc => ?_, fun v hv w hw' he => ?_, fun v hv w hw' a hva hwa => ?_⟩
  · obtain rfl := Option.some.inj hc
    refine ⟨List.mem_cons_self, fun v hv he => ?_⟩
    rcases List.mem_cons.mp hv with rfl | hv
    · exact List.prefix_refl _
    · exact h.prefix_new hw hv he
  · rcases List.mem_cons.mp hv with rfl | hvl <;> rcases List.mem_cons.mp hw' with rfl | hwl
    · exact .inl (List.prefix_refl _)
    · exact .inr (h.prefix_new hw hwl he.symm)
    · exact .inl (h.prefix_new hw hvl he)
    · exact h.comparable v hvl w hwl he
  · rcases List.mem_cons.mp hv with rfl | hvl <;> rcases List.mem_cons.mp hw' with rfl | hwl
    · rfl
    · exact (hw.mark w hwl a hwa hva).symm
    · exact hw.mark v hvl a hva hwa
    · exact h.marks v hvl w hwl a hva hwa

/-- **What a version of the current epoch has, the current one has.** -/
theorem getElem?_eq (h : Consistent log cur) (hc : cur = some w) (hv : v ∈ log)
    (he : v.epoch = w.epoch) {i : Nat} (hi : i < v.items.length) : w.items[i]? = v.items[i]? := by
  obtain ⟨r, hr⟩ := (h.current w hc).2 v hv he
  rw [← hr, List.getElem?_append_left hi]

/-- **A first element and a length determine the list.** -/
theorem items_eq (h : Consistent log cur) (hv : v ∈ log) (hw : w ∈ log) {a : α}
    (hva : v.items.head? = some a) (hwa : w.items.head? = some a)
    (hlen : v.items.length = w.items.length) : v.items = w.items := by
  rcases h.comparable v hv w hw (h.marks v hv w hw a hva hwa) with hp | hp
  · exact hp.eq_of_length hlen
  · exact (hp.eq_of_length hlen.symm).symm

end Consistent

end DevDashboard.Lib.Epochs
