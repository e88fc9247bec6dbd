import Mathlib.Data.List.Basic
import Mathlib.Data.List.Nodup

/-!
# Savepoints

One transaction with nested savepoints, by what has happened in it: the rows
inserted, each with the savepoints open at that time, and the savepoints
released.  A row is live while every savepoint around it is released or still
open; its owner is the innermost one not released yet.

* `tagged_release`: a release leaves all rows and hands those of the savepoint to
  the enclosing one.
* `tagged_close`: any other end of a savepoint drops the rows it owns, and no others.
* `tagged_bottom`: with no savepoint open, what is live are the survivors.
-/

namespace Savepoints

variable {Row : Type}

structure Insertion (Row : Type) where
  row : Row
  /-- The savepoints open then, the innermost first. -/
  enclosing : List Nat
  deriving DecidableEq, Repr

structure Tx (Row : Type) where
  /-- The savepoints open now, the innermost first. -/
  stack : List Nat
  insertions : List (Insertion Row)
  released : List Nat
  deriving DecidableEq, Repr

namespace Tx

def start : Tx Row := ⟨[], [], []⟩

def insert (t : Tx Row) (rows : List Row) : Tx Row :=
  { t with insertions := t.insertions ++ rows.map fun row => ⟨row, t.stack⟩ }

def begin (t : Tx Row) (n : Nat) : Tx Row := { t with stack := n :: t.stack }

def release (t : Tx Row) : Tx Row :=
  match t.stack with
  | [] => t
  | n :: rest => { t with stack := rest, released := n :: t.released }

/-- The end of the innermost savepoint, other than by its release. -/
def close (t : Tx Row) : Tx Row := { t with stack := t.stack.tail }

def kept (t : Tx Row) (i : Insertion Row) : Bool :=
  i.enclosing.all fun n => n ∈ t.released ∨ n ∈ t.stack

def live (t : Tx Row) : List (Insertion Row) := t.insertions.filter t.kept

/-- The innermost savepoint around a row that is not released. -/
def owner (t : Tx Row) (i : Insertion Row) : Option Nat := i.enclosing.find? fun n => n ∉ t.released

/-- The live rows, each with its owner. -/
def tagged (t : Tx Row) : List (Row × Option Nat) := t.live.map fun i => (i.row, t.owner i)

/-- The rows all of whose savepoints were released. -/
def survivors (t : Tx Row) : List Row :=
  (t.insertions.filter fun i => i.enclosing.all fun n => n ∈ t.released).map Insertion.row

/-- A number of no savepoint so far. -/
structure Fresh (t : Tx Row) (n : Nat) : Prop where
  stack : n ∉ t.stack
  released : n ∉ t.released
  enclosing : ∀ i ∈ t.insertions, n ∉ i.enclosing

/-- Around a live row lie some released savepoints and, outside of them, an outer
part of the open ones. -/
structure Nested (t : Tx Row) : Prop where
  nodup : t.stack.Nodup
  apart : ∀ n ∈ t.stack, n ∉ t.released
  spine : ∀ i ∈ t.live, ∃ inner rest, i.enclosing = inner ++ rest ∧
    (∀ n ∈ inner, n ∈ t.released) ∧ rest <:+ t.stack

theorem kept_iff (t : Tx Row) (i : Insertion Row) :
    t.kept i = true ↔ ∀ n ∈ i.enclosing, n ∈ t.released ∨ n ∈ t.stack := by
  unfold kept
  simp only [List.all_eq_true, decide_eq_true_eq]

theorem mem_live (t : Tx Row) (i : Insertion Row) :
    i ∈ t.live ↔ i ∈ t.insertions ∧ t.kept i = true := List.mem_filter

/-! ## Owners -/

theorem owner_of_spine {t : Tx Row} (h : t.Nested) {i : Insertion Row} {inner rest : List Nat}
    (henclosing : i.enclosing = inner ++ rest) (hinner : ∀ n ∈ inner, n ∈ t.released)
    (hrest : rest <:+ t.stack) :
    t.owner i = rest.head? := by
  unfold owner
  have hnone : inner.find? (fun n => n ∉ t.released) = none := by
    apply List.find?_eq_none.mpr
    intro n hn
    simp only [decide_eq_true_eq, not_not]
    exact hinner n hn
  rw [henclosing, List.find?_append, hnone, Option.none_or]
  cases rest with
  | nil => rfl
  | cons m rest =>
    have hm : m ∈ t.stack := hrest.subset List.mem_cons_self
    rw [List.find?_cons_of_pos (by simp only [decide_eq_true_eq]; exact h.apart m hm)]
    rfl

/-- The owner of a live row is open. -/
theorem owner_mem {t : Tx Row} (h : t.Nested) {i : Insertion Row} (hi : i ∈ t.live)
    {n : Nat} (hn : t.owner i = some n) :
    n ∈ t.stack := by
  obtain ⟨inner, rest, henclosing, hinner, hrest⟩ := h.spine i hi
  rw [owner_of_spine h henclosing hinner hrest] at hn
  exact hrest.subset (List.mem_of_head? hn)

theorem tagged_owner_mem {t : Tx Row} (h : t.Nested) {p : Row × Option Nat}
    (hp : p ∈ t.tagged) {n : Nat} (hn : p.2 = some n) : n ∈ t.stack := by
  obtain ⟨i, hi, rfl⟩ := List.mem_map.mp hp
  exact owner_mem h hi hn

/-- The savepoints around a live row, when the innermost open one is `n`: it is the first of them
that is left, or it is none of them. -/
theorem spine_cases {t : Tx Row} (h : t.Nested) {n : Nat} {rest : List Nat}
    (hstack : t.stack = n :: rest) {i : Insertion Row}
    (hi : i ∈ t.live) : ∃ inner outer, i.enclosing = inner ++ outer ∧
      (∀ m ∈ inner, m ∈ t.released) ∧
      ((outer = n :: rest ∧ t.owner i = some n) ∨
        (outer <:+ rest ∧ t.owner i = outer.head? ∧ t.owner i ≠ some n)) := by
  obtain ⟨inner, outer, henclosing, hinner, houter⟩ := h.spine i hi
  have howner := owner_of_spine h henclosing hinner houter
  refine ⟨inner, outer, henclosing, hinner, ?_⟩
  rw [hstack] at houter
  rcases List.suffix_cons_iff.mp houter with rfl | houter
  · exact Or.inl ⟨rfl, howner⟩
  · refine Or.inr ⟨houter, howner, fun he => ?_⟩
    have hnodup := h.nodup
    rw [hstack, List.nodup_cons] at hnodup
    exact hnodup.1 (houter.subset (List.mem_of_head? (howner.symm.trans he)))

/-! ## The operations -/

theorem nested_start : (start : Tx Row).Nested :=
  ⟨List.nodup_nil, fun _ h => (List.not_mem_nil h).elim, fun _ h => (List.not_mem_nil h).elim⟩

theorem live_begin {t : Tx Row} {n : Nat} (hn : t.Fresh n) : (t.begin n).live = t.live := by
  apply List.filter_congr
  intro i hi
  rw [Bool.eq_iff_iff, kept_iff, kept_iff]
  refine forall₂_congr fun m hm => or_congr_right ?_
  have hne : m ≠ n := fun e => hn.enclosing i hi (e ▸ hm)
  exact List.mem_cons.trans (or_iff_right hne)

theorem nested_begin {t : Tx Row} (h : t.Nested) {n : Nat}
    (hn : t.Fresh n) : (t.begin n).Nested := by
  refine ⟨List.nodup_cons.mpr ⟨hn.stack, h.nodup⟩, fun m hm => ?_, fun i hi => ?_⟩
  · rcases List.mem_cons.mp hm with rfl | hm
    · exact hn.released
    · exact h.apart m hm
  · rw [live_begin hn] at hi
    obtain ⟨inner, rest, henclosing, hinner, hrest⟩ := h.spine i hi
    exact ⟨inner, rest, henclosing, hinner, hrest.trans (List.suffix_cons n t.stack)⟩

theorem tagged_begin {t : Tx Row} {n : Nat} (hn : t.Fresh n) : (t.begin n).tagged = t.tagged := by
  unfold tagged
  rw [live_begin hn]
  rfl

theorem live_insert (t : Tx Row) (rows : List Row) :
    (t.insert rows).live = t.live ++ rows.map fun row => ⟨row, t.stack⟩ := by
  show (t.insertions ++ _).filter (t.insert rows).kept = _
  rw [List.filter_append]
  refine congrArg₂ (· ++ ·) rfl (List.filter_eq_self.mpr fun i hi => ?_)
  obtain ⟨row, -, rfl⟩ := List.mem_map.mp hi
  exact (kept_iff _ _).mpr fun n hn => Or.inr hn

theorem nested_insert {t : Tx Row} (h : t.Nested) (rows : List Row) : (t.insert rows).Nested := by
  refine ⟨h.nodup, h.apart, fun i hi => ?_⟩
  rw [live_insert] at hi
  rcases List.mem_append.mp hi with hi | hi
  · exact h.spine i hi
  · obtain ⟨row, -, rfl⟩ := List.mem_map.mp hi
    exact ⟨[], t.stack, rfl, fun n hn => (List.not_mem_nil hn).elim, List.suffix_refl _⟩

theorem tagged_insert {t : Tx Row} (h : t.Nested) (rows : List Row) :
    (t.insert rows).tagged = t.tagged ++ rows.map fun row => (row, t.stack.head?) := by
  unfold tagged
  rw [live_insert, List.map_append, List.map_map]
  refine congrArg₂ (· ++ ·) rfl (List.map_congr_left fun row _ => ?_)
  have howner : (t.insert rows).owner ⟨row, t.stack⟩ = t.stack.head? :=
    owner_of_spine (nested_insert h rows) (List.nil_append _).symm
      (fun n hn => (List.not_mem_nil hn).elim) (List.suffix_refl _)
  exact congrArg (Prod.mk row) howner

section

variable {t : Tx Row} (h : t.Nested) {n : Nat} {rest : List Nat} (hstack : t.stack = n :: rest)

include hstack

theorem release_eq : t.release = { t with stack := rest, released := n :: t.released } := by
  unfold release
  rw [hstack]

theorem live_release : t.release.live = t.live := by
  rw [release_eq hstack]
  apply List.filter_congr
  intro i hi
  rw [Bool.eq_iff_iff, kept_iff, kept_iff]
  refine forall₂_congr fun m hm => ?_
  rw [hstack, List.mem_cons, List.mem_cons]
  show (m = n ∨ m ∈ t.released) ∨ m ∈ rest ↔ m ∈ t.released ∨ m = n ∨ m ∈ rest
  rw [or_comm (a := m = n), or_assoc]

include h

theorem nested_release : t.release.Nested := by
  have hnodup := h.nodup
  rw [hstack, List.nodup_cons] at hnodup
  have hlive := live_release hstack
  rw [release_eq hstack] at hlive ⊢
  refine ⟨hnodup.2, fun m hm hr => ?_, fun i hi => ?_⟩
  · rcases List.mem_cons.mp hr with rfl | hr
    · exact hnodup.1 hm
    · exact h.apart m (hstack ▸ List.mem_cons_of_mem n hm) hr
  · rw [hlive] at hi
    obtain ⟨inner, outer, henclosing, hinner, ⟨rfl, -⟩ | ⟨houter, -⟩⟩ := spine_cases h hstack hi
    · refine ⟨inner ++ [n], rest, by rw [henclosing, List.append_assoc, List.singleton_append],
        fun m hm => ?_, List.suffix_refl _⟩
      rcases List.mem_append.mp hm with hm | hm
      · exact List.mem_cons_of_mem n (hinner m hm)
      · exact List.mem_singleton.mp hm ▸ List.mem_cons_self
    · exact ⟨inner, outer, henclosing, fun m hm => List.mem_cons_of_mem n (hinner m hm), houter⟩

theorem tagged_release :
    t.release.tagged = t.tagged.map fun p => if p.2 = some n then (p.1, rest.head?) else p := by
  have hafter := nested_release h hstack
  unfold tagged
  rw [live_release hstack, List.map_map]
  refine List.map_congr_left fun i hi => ?_
  show (i.row, t.release.owner i) = if t.owner i = some n then (i.row, rest.head?)
    else (i.row, t.owner i)
  have hrest : t.release.stack = rest := by rw [release_eq hstack]
  have hreleased : ∀ m, m ∈ t.release.released ↔ m = n ∨ m ∈ t.released := by
    intro m
    rw [release_eq hstack]
    exact List.mem_cons
  obtain ⟨inner, outer, henclosing, hinner, ⟨rfl, howner⟩ | ⟨houter, howner, hne⟩⟩ :=
    spine_cases h hstack hi
  · have hnew : t.release.owner i = rest.head? := by
      have hspine : i.enclosing = (inner ++ [n]) ++ rest := by
        rw [henclosing, List.append_assoc, List.singleton_append]
      apply owner_of_spine hafter hspine
      · intro m hm
        rcases List.mem_append.mp hm with hm | hm
        · exact (hreleased m).mpr (Or.inr (hinner m hm))
        · exact (hreleased m).mpr (Or.inl (List.mem_singleton.mp hm))
      · exact hrest.symm ▸ List.suffix_refl rest
    rw [if_pos howner, hnew]
  · have hnew : t.release.owner i = outer.head? := by
      apply owner_of_spine hafter henclosing (fun m hm => (hreleased m).mpr (Or.inr (hinner m hm)))
      rw [hrest]
      exact houter
    rw [if_neg hne, hnew, howner]

theorem live_close : t.close.live = t.live.filter fun i => t.owner i ≠ some n := by
  unfold live
  rw [List.filter_filter]
  apply List.filter_congr
  intro i hi
  have htail : t.close.stack = rest := by
    show t.stack.tail = rest
    rw [hstack]
    rfl
  rw [Bool.eq_iff_iff, Bool.and_eq_true, decide_eq_true_eq, kept_iff, htail]
  constructor
  · intro hkept
    have hlive : t.kept i = true := by
      rw [kept_iff, hstack]
      exact fun m hm => (hkept m hm).imp_right (List.mem_cons_of_mem n)
    refine ⟨fun howner => ?_, hlive⟩
    have hn : n ∈ i.enclosing := List.mem_of_find?_eq_some howner
    have hnodup := h.nodup
    rw [hstack, List.nodup_cons] at hnodup
    rcases hkept n hn with hr | hr
    · exact h.apart n (hstack ▸ List.mem_cons_self) hr
    · exact hnodup.1 hr
  · rintro ⟨howner, hlive⟩ m hm
    obtain ⟨inner, outer, henclosing, hinner, ⟨-, he⟩ | ⟨houter, -⟩⟩ :=
      spine_cases h hstack ((mem_live t i).mpr ⟨hi, hlive⟩)
    · exact absurd he howner
    · rw [henclosing] at hm
      rcases List.mem_append.mp hm with hm | hm
      · exact Or.inl (hinner m hm)
      · exact Or.inr (houter.subset hm)

theorem nested_close : t.close.Nested := by
  have htail : t.close.stack = rest := by
    show t.stack.tail = rest
    rw [hstack]
    rfl
  have hnodup := h.nodup
  rw [hstack, List.nodup_cons] at hnodup
  refine ⟨by rw [htail]; exact hnodup.2, fun m hm => ?_, fun i hi => ?_⟩
  · rw [htail] at hm
    exact h.apart m (hstack ▸ List.mem_cons_of_mem n hm)
  · rw [live_close h hstack] at hi
    obtain ⟨hi, howner⟩ := List.mem_filter.mp hi
    obtain ⟨inner, outer, henclosing, hinner, ⟨-, he⟩ | ⟨houter, -⟩⟩ := spine_cases h hstack hi
    · exact absurd he (of_decide_eq_true howner)
    · exact ⟨inner, outer, henclosing, hinner, by rw [htail]; exact houter⟩

theorem tagged_close : t.close.tagged = t.tagged.filter fun p => p.2 ≠ some n := by
  unfold tagged
  rw [live_close h hstack, List.filter_map]
  rfl

end

theorem tagged_bottom {t : Tx Row} (hstack : t.stack = []) :
    t.tagged.map Prod.fst = t.survivors := by
  unfold tagged survivors live kept
  rw [List.map_map, hstack]
  refine congrArg (List.map Insertion.row) (List.filter_congr fun i _ => ?_)
  rw [Bool.eq_iff_iff]
  simp

end Tx

end Savepoints
