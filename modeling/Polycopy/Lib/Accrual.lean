import Mathlib.Data.List.Perm.Lattice
import Polycopy.Lib.Keyed

/-!
# A log of what is new

A table of facts under unique keys only grows. A follower reads the whole of it from
time to time and writes down the facts whose keys it has not written down before; it
refuses a table that has lost or changed one.

    enter conflict store facts the facts under their keys, a second one only if it is the first
    again Retained store scan the scan has each key once, and has every fact of the store fresh
    store scan the facts of the scan under new keys

What a follower of a growing table writes it can enter (`enter_fresh`), and its store is
then the table (`accrued_perm`), each fact once (`accrued_nodup`).
-/

namespace Accrual

variable {α κ X : Type} [DecidableEq κ] (key : α → κ)

def enter [DecidableEq α] (conflict : X) (store : List α) : List α → Except X (List α)
  | [] => .ok store
  | a :: facts =>
    if (Keyed.find key (key a) store).any fun old => old ≠ a then .error conflict
    else enter conflict (Keyed.put key a store) facts

def Retained (store scan : List α) : Prop :=
  (scan.map key).Nodup ∧ ∀ old ∈ store, Keyed.find key (key old) scan = some old

instance [DecidableEq α] (store scan : List α) : Decidable (Retained key store scan) :=
  inferInstanceAs (Decidable (_ ∧ _))

def fresh (store scan : List α) : List α :=
  scan.filter fun a => (Keyed.find key (key a) store).isNone

variable {key}

theorem mem_fresh {store scan : List α} {a : α} : a ∈ fresh key store scan ↔
    a ∈ scan ∧ ∀ old ∈ store, key old ≠ key a := by
  unfold fresh
  rw [List.mem_filter, Option.isNone_iff_eq_none, Keyed.find_none]

theorem retained_of_subset {store scan : List α} (hn : (scan.map key).Nodup)
    (h : store ⊆ scan) : Retained key store scan :=
  ⟨hn, fun _ hold => Keyed.find_of_mem key hn (h hold)⟩

theorem fresh_nodup (store : List α) {scan : List α} (hn : (scan.map key).Nodup) :
    ((fresh key store scan).map key).Nodup :=
  hn.sublist (List.filter_sublist.map key)

/-- New keys are entered one after another. -/
theorem enter_new [DecidableEq α] (conflict : X) {store facts : List α} (hn : (facts.map key).Nodup)
    (h : ∀ a ∈ facts, ∀ old ∈ store, key old ≠ key a) :
    enter key conflict store facts = .ok (store ++ facts) := by
  induction facts generalizing store with
  | nil =>
    rw [List.append_nil]
    rfl
  | cons a facts ih =>
    rw [List.map_cons, List.nodup_cons] at hn
    have hnone : Keyed.find key (key a) store = none :=
      (Keyed.find_none key).mpr (h a List.mem_cons_self)
    unfold enter
    rw [hnone, Option.any_none, if_neg Bool.false_ne_true, Keyed.put_of_none key hnone]
    have hrest : ∀ b ∈ facts, ∀ old ∈ store ++ [a], key old ≠ key b := by
      intro b hb old hold
      rcases List.mem_append.mp hold with hold | hold
      · exact h b (List.mem_cons_of_mem _ hb) old hold
      · obtain rfl := List.mem_singleton.mp hold
        exact fun he => hn.1 (he ▸ List.mem_map_of_mem hb)
    rw [ih hn.2 hrest, List.append_assoc, List.singleton_append]

theorem enter_fresh [DecidableEq α] (conflict : X) (store : List α) {scan : List α}
    (hn : (scan.map key).Nodup) :
    enter key conflict store (fresh key store scan) = .ok (store ++ fresh key store scan) :=
  enter_new conflict (fresh_nodup store hn) fun _ ha => (mem_fresh.mp ha).2

theorem accrued_nodup {store scan : List α} (hs : (store.map key).Nodup)
    (hn : (scan.map key).Nodup) :
    ((store ++ fresh key store scan).map key).Nodup := by
  rw [List.map_append, List.nodup_append]
  refine ⟨hs, fresh_nodup store hn, fun k hk k' hk' => ?_⟩
  obtain ⟨old, hold, rfl⟩ := List.mem_map.mp hk
  obtain ⟨a, ha, rfl⟩ := List.mem_map.mp hk'
  exact (mem_fresh.mp ha).2 old hold

/-- The store with what is new is the table. -/
theorem accrued_perm {store scan : List α} (hs : (store.map key).Nodup)
    (h : Retained key store scan) :
    (store ++ fresh key store scan).Perm scan := by
  refine (List.perm_ext_iff_of_nodup (accrued_nodup hs h.1).of_map h.1.of_map).mpr fun a => ?_
  rw [List.mem_append, mem_fresh]
  constructor
  · rintro (ha | ha)
    · exact (Keyed.find_some key (h.2 a ha)).1
    · exact ha.1
  · intro ha
    by_cases hnew : ∀ old ∈ store, key old ≠ key a
    · exact Or.inr ⟨ha, hnew⟩
    · obtain ⟨old, hold, hkey⟩ : ∃ old ∈ store, key old = key a := by simpa using hnew
      obtain rfl := Keyed.eq_of_key key h.1 (Keyed.find_some key (h.2 old hold)).1 ha hkey
      exact Or.inl hold

end Accrual
