import Mathlib.Algebra.BigOperators.Group.List.Lemmas
import Polycopy.Lib.Keyed

/-!
# Counting by group

`SELECT key, count(*) … GROUP BY key` over a list of rows, and the dictionary
built from such pairs.
-/

namespace Grouped

variable {α κ ν : Type} [DecidableEq κ]

/-- Each key of the rows, with how many of them have it. -/
def counts (key : α → κ) (rows : List α) : List (κ × Nat) :=
  (rows.map key).dedup.map fun k => (k, (rows.map key).count k)

/-- A later pair overwrites the value of an earlier one with its key. -/
def dict (pairs : List (κ × ν)) : List (κ × ν) :=
  pairs.foldl (fun d kv => Keyed.put Prod.fst kv d) []

theorem counts_keys (key : α → κ) (rows : List α) :
    (counts key rows).map Prod.fst = (rows.map key).dedup := by
  unfold counts
  rw [List.map_map]
  exact List.map_id _

theorem counts_nodup (key : α → κ) (rows : List α) : ((counts key rows).map Prod.fst).Nodup := by
  rw [counts_keys]
  exact List.nodup_dedup _

/-- The counts of some of the groups add up to the rows that are in one of them. -/
theorem counts_sum (p : κ → Bool) (key : α → κ) (rows : List α) :
    (((counts key rows).filter fun g => p g.1).map Prod.snd).sum =
      rows.countP fun a => p (key a) := by
  unfold counts
  rw [List.filter_map, List.map_map]
  have h := List.sum_map_count_dedup_filter_eq_countP p (rows.map key)
  rw [List.countP_map] at h
  exact h

theorem foldl_put_nodup (pairs : List (κ × ν)) : ∀ d :
    List (κ × ν), ((d ++ pairs).map Prod.fst).Nodup →
    pairs.foldl (fun d kv => Keyed.put Prod.fst kv d) d = d ++ pairs := by
  induction pairs with
  | nil => exact fun d _ => (List.append_nil d).symm
  | cons kv pairs ih =>
    intro d hn
    have hnew : Keyed.find Prod.fst kv.1 d = none := by
      apply (Keyed.find_none Prod.fst).mpr
      intro other hother he
      rw [List.map_append, List.nodup_append] at hn
      exact hn.2.2 _ (List.mem_map_of_mem hother) kv.1 (List.mem_cons_self) he
    rw [List.foldl_cons, Keyed.put_of_none Prod.fst hnew]
    rw [ih (d ++ [kv]) (by rwa [List.append_assoc, List.singleton_append]),
      List.append_assoc, List.singleton_append]

/-- Nothing is overwritten where the keys differ. -/
theorem dict_of_nodup {pairs : List (κ × ν)}
    (h : (pairs.map Prod.fst).Nodup) : dict pairs = pairs :=
  foldl_put_nodup pairs [] h

/-- A lookup by a key that is there once at most adds up the pairs with the key. -/
theorem find_sum (k : κ) {pairs : List (κ × Nat)} (h : (pairs.map Prod.fst).Nodup) :
    ((Keyed.find Prod.fst k pairs).map Prod.snd).getD 0 =
      ((pairs.filter fun kv => kv.1 = k).map Prod.snd).sum := by
  induction pairs with
  | nil => rfl
  | cons kv pairs ih =>
    rw [List.map_cons, List.nodup_cons] at h
    rw [Keyed.find_cons]
    by_cases hk : kv.1 = k
    · have hrest : pairs.filter (fun kv => kv.1 = k) = [] := by
        apply List.filter_eq_nil_iff.mpr
        intro other hother he
        apply h.1
        rw [hk, ← of_decide_eq_true he]
        exact List.mem_map_of_mem hother
      simp [hk, hrest]
    · simpa [hk] using ih h.2

end Grouped
