import Mathlib.Algebra.BigOperators.Group.List.Basic
import Mathlib.Data.List.Nodup
import Mathlib.Data.List.Perm.Basic
import Mathlib.Tactic.Abel

/-!
# Tables as lists of rows with a key

`find` is a lookup by a unique key, `put` an upsert of one row, `update` an
`UPDATE … WHERE key = k`, and `fresh` an unused number for a new row.  A table
whose keys are `Nodup` keeps them so, and sums over its rows change by the row
written minus the row replaced.
-/

namespace Keyed

variable {α κ : Type} [DecidableEq κ] (key : α → κ)

def find (k : κ) (l : List α) : Option α := l.find? fun a => key a = k

/-- Replace the first row with `a`'s key, or append `a`. -/
def put (a : α) : List α → List α
  | [] => [a]
  | b :: l => if key b = key a then a :: l else b :: put a l

def update (k : κ) (f : α → α) (l : List α) : List α := l.map fun a => if key a = k then f a else a

theorem find_some {k : κ} {l : List α} {a : α} (h : find key k l = some a) : a ∈ l ∧ key a = k :=
  ⟨List.mem_of_find?_eq_some h, by simpa using List.find?_some h⟩

theorem find_none {k : κ} {l : List α} : find key k l = none ↔ ∀ a ∈ l, key a ≠ k := by
  simp [find]

theorem find_cons (k : κ) (b : α) (l : List α) :
    find key k (b :: l) = if key b = k then some b else find key k l := by
  by_cases h : key b = k <;> simp [find, h]

theorem find_append (k : κ) (l l' : List α) :
    find key k (l ++ l') = (find key k l).or (find key k l') := by
  unfold find
  exact List.find?_append

theorem find_of_mem {l : List α} (hn : (l.map key).Nodup) {a : α} (ha : a ∈ l) :
    find key (key a) l = some a := by
  induction l with
  | nil => cases ha
  | cons b l ih =>
    rw [List.map_cons, List.nodup_cons] at hn
    rw [find_cons]
    rcases List.mem_cons.mp ha with rfl | ha
    · rw [if_pos rfl]
    · have hne : key b ≠ key a := fun e => hn.1 (e ▸ List.mem_map_of_mem ha)
      rw [if_neg hne]
      exact ih hn.2 ha

/-- The rows with one key. -/
theorem filter_key (k : κ) {l : List α} (hn : (l.map key).Nodup) :
    l.filter (fun a => key a = k) = (find key k l).toList := by
  induction l with
  | nil => rfl
  | cons b l ih =>
    rw [List.map_cons, List.nodup_cons] at hn
    rw [List.filter_cons, find_cons, ih hn.2]
    by_cases h : key b = k
    · have hnone : find key k l = none :=
        (find_none key).mpr fun a ha he => hn.1 (List.mem_map.mpr ⟨a, ha, he.trans h.symm⟩)
      simp [h, hnone]
    · simp [h]

theorem find_perm (k : κ) {l l' : List α} (hn : (l.map key).Nodup) (h : l.Perm l') :
    find key k l = find key k l' := by
  have hrows := h.filter fun a => key a = k
  rw [filter_key key k hn, filter_key key k ((h.map key).nodup_iff.mp hn)] at hrows
  cases hl : find key k l with
  | none =>
    rw [hl] at hrows
    cases hl' : find key k l' with
    | none => rfl
    | some a =>
      rw [hl'] at hrows
      exact absurd hrows.length_eq (by simp)
  | some a =>
    rw [hl] at hrows
    exact (Option.toList_eq_singleton_iff.mp (List.perm_singleton.mp hrows.symm)).symm

/-- Two rows of a keyed table with one key are one row. -/
theorem eq_of_key {l : List α} (hn : (l.map key).Nodup) {a b : α} (ha : a ∈ l) (hb : b ∈ l)
    (h : key a = key b) : a = b := by
  have h1 := find_of_mem key hn ha
  rw [h, find_of_mem key hn hb] at h1
  exact (Option.some.inj h1).symm

/-- A row appended with an unused value. -/
theorem nodup_snoc {β : Type} (g : α → β) {l : List α} {a : α} (hn : (l.map g).Nodup)
    (ha : g a ∉ l.map g) : ((l ++ [a]).map g).Nodup := by
  rw [List.map_append, List.nodup_append]
  refine ⟨hn, List.nodup_singleton _, fun x hx y hy => ?_⟩
  obtain rfl := List.mem_singleton.mp hy
  exact fun e => ha (e ▸ hx)

/-! ## `put` -/

theorem put_cons (a b : α) (l : List α) :
    put key a (b :: l) = if key b = key a then a :: l else b :: put key a l := rfl

theorem find_put (a : α) (k : κ) (l : List α) :
    find key k (put key a l) = if key a = k then some a else find key k l := by
  induction l with
  | nil => simp [put, find_cons]
  | cons b l ih =>
    unfold put
    by_cases hb : key b = key a
    · rw [if_pos hb, find_cons, find_cons, hb]
      split <;> rfl
    · rw [if_neg hb, find_cons, find_cons, ih]
      by_cases hk : key b = k
      · rw [if_pos hk, if_neg (fun e => hb (hk.trans e.symm)), if_pos hk]
      · rw [if_neg hk, if_neg hk]

theorem mem_put_of {a b : α} {l : List α} (h : b ∈ put key a l) : b = a ∨ b ∈ l := by
  induction l with
  | nil => exact Or.inl (List.mem_singleton.mp h)
  | cons c l ih =>
    unfold put at h
    split at h
    · rcases List.mem_cons.mp h with rfl | h
      · exact Or.inl rfl
      · exact Or.inr (List.mem_cons_of_mem _ h)
    · rcases List.mem_cons.mp h with rfl | h
      · exact Or.inr List.mem_cons_self
      · exact (ih h).imp_right (List.mem_cons_of_mem _)

theorem mem_put_self (a : α) (l : List α) : a ∈ put key a l := by
  induction l with
  | nil => exact List.mem_singleton_self a
  | cons b l ih =>
    unfold put
    split
    · exact List.mem_cons_self
    · exact List.mem_cons_of_mem _ ih

theorem mem_put_of_ne {a b : α} {l : List α} (hb : b ∈ l) (hne : key b ≠ key a) :
    b ∈ put key a l := by
  induction l with
  | nil => cases hb
  | cons c l ih =>
    unfold put
    rcases List.mem_cons.mp hb with rfl | hb
    · rw [if_neg hne]; exact List.mem_cons_self
    · split
      · exact List.mem_cons_of_mem _ hb
      · exact List.mem_cons_of_mem _ (ih hb)

theorem put_keys (a : α) (l : List α) :
    (put key a l).map key = if key a ∈ l.map key then l.map key else l.map key ++ [key a] := by
  induction l with
  | nil => simp [put]
  | cons b l ih =>
    unfold put
    by_cases hb : key b = key a
    · simp [hb]
    · rw [if_neg hb, List.map_cons, ih]
      have hb' : ¬ key a = key b := fun e => hb e.symm
      by_cases hm : key a ∈ l.map key <;> simp [hm, hb', List.mem_cons]

theorem put_nodup {a : α} {l : List α} (hn : (l.map key).Nodup) :
    ((put key a l).map key).Nodup := by
  rw [put_keys]
  split
  · exact hn
  · next h =>
    simpa using nodup_snoc key hn h

/-- In a keyed table a row that survives `put a` is `a` or has another key. -/
theorem mem_put {a b : α} {l : List α} (hn : (l.map key).Nodup) (h : b ∈ put key a l) :
    b = a ∨ (b ∈ l ∧ key b ≠ key a) := by
  by_cases hk : key b = key a
  · left
    exact eq_of_key key (put_nodup key hn) h (mem_put_self key a l) hk
  · rcases mem_put_of key h with rfl | hb
    · exact Or.inl rfl
    · exact Or.inr ⟨hb, hk⟩

/-- `put` replaces the row found, if any. -/
theorem sum_put {M : Type} [AddCommGroup M] (f : α → M) (a : α) (l : List α) :
    ((put key a l).map f).sum = (l.map f).sum + f a - ((find key (key a) l).map f).getD 0 := by
  induction l with
  | nil => simp [put, find]
  | cons b l ih =>
    unfold put
    rw [find_cons]
    by_cases hb : key b = key a
    · rw [if_pos hb, if_pos hb]
      simp only [List.map_cons, List.sum_cons, Option.map_some, Option.getD_some]
      abel
    · rw [if_neg hb, if_neg hb, List.map_cons, List.sum_cons, ih, List.map_cons, List.sum_cons]
      abel

/-- The sum over the one row with a key. -/
theorem sum_of_key {M : Type} [AddCommGroup M] (f : α → M) (k : κ)
    {l : List α} (hn : (l.map key).Nodup) :
    (l.map fun a => if key a = k then f a else 0).sum = ((find key k l).map f).getD 0 := by
  induction l with
  | nil => rfl
  | cons b l ih =>
    rw [List.map_cons, List.nodup_cons] at hn
    rw [List.map_cons, List.sum_cons, ih hn.2, find_cons]
    by_cases hb : key b = k
    · have hnone : find key k l = none :=
        (find_none key).mpr fun a ha he => hn.1 (List.mem_map.mpr ⟨a, ha, he.trans hb.symm⟩)
      rw [if_pos hb, if_pos hb, hnone]
      exact add_zero _
    · rw [if_neg hb, if_neg hb, zero_add]

theorem put_of_none {a : α} {l : List α} (h : find key (key a) l = none) :
    put key a l = l ++ [a] := by
  induction l with
  | nil => rfl
  | cons b l ih =>
    rw [find_cons] at h
    split at h
    · cases h
    · next hb => rw [put, if_neg hb, ih h, List.cons_append]

theorem put_perm {a : α} {l : List α} (hn : (l.map key).Nodup) :
    (put key a l).Perm ((l.filter fun b => key b ≠ key a) ++ [a]) := by
  induction l with
  | nil => exact List.Perm.refl _
  | cons b l ih =>
    rw [List.map_cons, List.nodup_cons] at hn
    unfold put
    by_cases hb : key b = key a
    · have hrest : (l.filter fun c => key c ≠ key a) = l := by
        apply List.filter_eq_self.mpr
        intro c hc
        apply decide_eq_true
        intro he
        exact hn.1 ((hb.trans he.symm) ▸ List.mem_map_of_mem hc)
      rw [if_pos hb, List.filter_cons_of_neg (by simp [hb]), hrest]
      exact (List.perm_append_singleton a l).symm
    · rw [if_neg hb, List.filter_cons_of_pos (by simp [hb]), List.cons_append]
      exact (ih hn.2).cons b

/-- Rows put one after another, each with a key of its own. -/
theorem foldl_put_perm (new : List α) : ∀ {l : List α}, (l.map key).Nodup → (new.map key).Nodup →
    (new.foldl (fun l a => put key a l) l).Perm
      ((l.filter fun b => key b ∉ new.map key) ++ new) := by
  induction new with
  | nil =>
    intro l _ _
    rw [List.append_nil, List.filter_eq_self.mpr (by simp)]
    exact List.Perm.refl l
  | cons a new ih =>
    intro l hn hnew
    rw [List.map_cons, List.nodup_cons] at hnew
    rw [List.foldl_cons]
    refine (ih (put_nodup key hn) hnew.2).trans ?_
    have hput := ((put_perm key hn (a := a)).filter fun b => key b ∉ new.map key).append_right new
    refine hput.trans (List.Perm.of_eq ?_)
    rw [List.filter_append, List.filter_filter,
      List.filter_cons_of_pos (by simpa using hnew.1), List.filter_nil,
      List.append_assoc, List.singleton_append]
    refine congrArg (· ++ a :: new) (List.filter_congr fun b _ => ?_)
    rw [Bool.eq_iff_iff, Bool.and_eq_true, decide_eq_true_eq, decide_eq_true_eq,
      decide_eq_true_eq, List.map_cons, List.mem_cons, not_or, and_comm]

/-- A projection on which the row written agrees with the row replaced. -/
theorem map_put_of_some {β : Type} (g : α → β) {a b : α} {l : List α}
    (h : find key (key a) l = some b) (hg : g a = g b) : (put key a l).map g = l.map g := by
  induction l with
  | nil => cases h
  | cons c l ih =>
    rw [find_cons] at h
    unfold put
    split at h
    · next hc =>
      obtain rfl := Option.some.inj h
      rw [if_pos hc, List.map_cons, List.map_cons, hg]
    · next hc => rw [if_neg hc, List.map_cons, List.map_cons, ih h]

/-- Neither the row written nor the one replaced is among those kept. -/
theorem filter_put {p : α → Bool} {a : α} {l : List α} (ha : p a = false)
    (hold : ∀ b, find key (key a) l = some b → p b = false) :
    (put key a l).filter p = l.filter p := by
  induction l with
  | nil => simp [put, ha]
  | cons b l ih =>
    unfold put
    by_cases hb : key b = key a
    · have hpb := hold b (by rw [find_cons, if_pos hb])
      rw [if_pos hb, List.filter_cons_of_neg (by simp [ha]), List.filter_cons_of_neg (by simp [hpb])]
    · rw [if_neg hb, List.filter_cons, List.filter_cons,
        ih fun c hc => hold c (by rw [find_cons, if_neg hb, hc])]

/-! ## `update` -/

theorem mem_update {k : κ} {f : α → α} {l : List α} {b : α} :
    b ∈ update key k f l ↔ (∃ a ∈ l, key a = k ∧ b = f a) ∨ (b ∈ l ∧ key b ≠ k) := by
  unfold update
  rw [List.mem_map]
  constructor
  · rintro ⟨a, ha, rfl⟩
    by_cases h : key a = k
    · exact Or.inl ⟨a, ha, h, if_pos h⟩
    · rw [if_neg h]; exact Or.inr ⟨ha, h⟩
  · rintro (⟨a, ha, h, rfl⟩ | ⟨hb, h⟩)
    · exact ⟨a, ha, if_pos h⟩
    · exact ⟨b, hb, if_neg h⟩

/-- A projection the update leaves alone. -/
theorem map_update {β : Type} (g : α → β) {k : κ} {f : α → α}
    (hf : ∀ a, g (f a) = g a) (l : List α) :
    (update key k f l).map g = l.map g := by
  unfold update
  rw [List.map_map]
  apply List.map_congr_left
  intro a _
  by_cases h : key a = k <;> simp [h, hf]

theorem find_update {k k' : κ} {f : α → α} (hf : ∀ a, key (f a) = key a) (l : List α) :
    find key k' (update key k f l) = (find key k' l).map fun a => if key a = k then f a else a := by
  induction l with
  | nil => rfl
  | cons b l ih =>
    change find key k' ((if key b = k then f b else b) :: update key k f l) = _
    rw [find_cons, find_cons, ih]
    by_cases hb : key b = k
    · simp only [hb, if_true, hf]
      split <;> simp [hb]
    · simp only [hb, if_false]
      split <;> simp [hb]

/-! ## `fresh` -/

/-- A number above every `id` in use. -/
def fresh (id : α → Nat) (l : List α) : Nat := (l.map id).foldr max 0 + 1

theorem lt_fresh (id : α → Nat) {l : List α} {a : α} (h : a ∈ l) : id a < fresh id l := by
  unfold fresh
  induction l with
  | nil => cases h
  | cons b l ih =>
    simp only [List.map_cons, List.foldr_cons]
    rcases List.mem_cons.mp h with rfl | h
    · omega
    · have := ih h
      omega

theorem fresh_not_mem (id : α → Nat) (l : List α) : fresh id l ∉ l.map id := by
  intro h
  obtain ⟨a, ha, he⟩ := List.mem_map.mp h
  have := lt_fresh id ha
  omega

end Keyed
