import Mathlib.Algebra.BigOperators.Group.List.Lemmas
import Mathlib.Algebra.BigOperators.Ring.List
import Mathlib.Algebra.Order.BigOperators.Group.List
import Mathlib.Algebra.Order.Field.Basic
import Mathlib.Data.List.Perm.Basic
import Mathlib.Tactic.Linarith
import Mathlib.Tactic.Ring

/-!
# Taking divisible items in order of their rate

An allocation takes some of each item, at most its size; it has a total and,
for a rate of each item, a value.  A front takes everything before an item, some
of that item and nothing after it.  When the items come in ascending order of
their rate, a front is cheapest for its total:

    f.value - a.value ≤ rate of f's item * (f.total - a.total)      (Front.exchange)

for every allocation `a`, by weak duality with that rate as the multiplier.
-/

namespace Greedy

variable {ι K : Type} [Field K] [LinearOrder K]

/-! ## Allocations -/

/-- How much of each item, items in any order. -/
structure Alloc (size : ι → K) (items : List ι) where
  amounts : List (ι × K)
  perm : (amounts.map Prod.fst).Perm items
  nonneg : ∀ x ∈ amounts, 0 ≤ x.2
  le_size : ∀ x ∈ amounts, x.2 ≤ size x.1

variable {size rate : ι → K} {items : List ι}

namespace Alloc

def total (a : Alloc size items) : K := (a.amounts.map Prod.snd).sum

def value (rate : ι → K) (a : Alloc size items) : K := (a.amounts.map fun x => x.2 * rate x.1).sum

/-- The same amounts of the items in another order. -/
def reorder {items' : List ι} (h : items.Perm items') (a : Alloc size items) : Alloc size items' :=
  ⟨a.amounts, a.perm.trans h, a.nonneg, a.le_size⟩

theorem value_neg (a : Alloc size items) : a.value (fun i => - rate i) = - a.value rate := by
  unfold value
  induction a.amounts with
  | nil => simp
  | cons x l ih =>
    rw [List.map_cons, List.sum_cons, List.map_cons, List.sum_cons, ih]
    ring

end Alloc

/-! ## Fronts -/

/-- Everything before an item, some of the item, nothing after it. -/
structure Front (size : ι → K) (items : List ι) where
  before : List ι
  item : ι
  after : List ι
  amount : K
  split : items = before ++ item :: after
  nonneg : 0 ≤ amount
  le_size : amount ≤ size item

namespace Front

def total (f : Front size items) : K := (f.before.map size).sum + f.amount

def value (rate : ι → K) (f : Front size items) : K :=
  (f.before.map fun i => size i * rate i).sum + f.amount * rate f.item

/-- The same front behind one more item. -/
def behind (i : ι) (f : Front size items) : Front size (i :: items) where
  before := i :: f.before
  item := f.item
  after := f.after
  amount := f.amount
  split := congrArg (List.cons i) f.split
  nonneg := f.nonneg
  le_size := f.le_size

theorem behind_total (i : ι) (f : Front size items) : (f.behind i).total = size i + f.total := by
  unfold total behind
  rw [List.map_cons, List.sum_cons, add_assoc]

theorem behind_value (i : ι) (f : Front size items) :
    (f.behind i).value rate = size i * rate i + f.value rate := by
  unfold value behind
  rw [List.map_cons, List.sum_cons, add_assoc]

/-- A front as an allocation. -/
def alloc (hsize : ∀ i, 0 ≤ size i) (f : Front size items) : Alloc size items where
  amounts := f.before.map (fun i => (i, size i)) ++ (f.item, f.amount) :: f.after.map fun i => (i, 0)
  perm := by
    refine List.Perm.of_eq (Eq.trans ?_ f.split.symm)
    simp [Function.comp_def]
  nonneg := by
    intro x hx
    rcases List.mem_append.mp hx with hx | hx
    · obtain ⟨i, -, rfl⟩ := List.mem_map.mp hx
      exact hsize i
    · rcases List.mem_cons.mp hx with rfl | hx
      · exact f.nonneg
      · obtain ⟨i, -, rfl⟩ := List.mem_map.mp hx
        exact le_refl 0
  le_size := by
    intro x hx
    rcases List.mem_append.mp hx with hx | hx
    · obtain ⟨i, -, rfl⟩ := List.mem_map.mp hx
      exact le_refl _
    · rcases List.mem_cons.mp hx with rfl | hx
      · exact f.le_size
      · obtain ⟨i, -, rfl⟩ := List.mem_map.mp hx
        exact hsize i

theorem alloc_total (hsize : ∀ i, 0 ≤ size i) (f : Front size items) :
    (f.alloc hsize).total = f.total := by
  unfold Alloc.total total alloc
  simp [Function.comp_def]

theorem alloc_value (hsize : ∀ i, 0 ≤ size i) (f : Front size items) :
    (f.alloc hsize).value rate = f.value rate := by
  unfold Alloc.value value alloc
  simp [Function.comp_def]

end Front

variable [IsStrictOrderedRing K]

theorem Alloc.total_le (a : Alloc size items) : a.total ≤ (items.map size).sum := by
  have hsum : (items.map size).sum = (a.amounts.map fun x => size x.1).sum := by
    rw [← (a.perm.map size).sum_eq, List.map_map]
    rfl
  rw [hsum]
  exact List.sum_le_sum fun x hx => a.le_size x hx

/-! ## Weak duality -/

/-- The least that `(rate i - p) * amount` can add up to. -/
def bound (size rate : ι → K) (p : K) (items : List ι) : K :=
  (items.map fun i => size i * min 0 (rate i - p)).sum

theorem Alloc.bound_le (a : Alloc size items) (p : K) :
    bound size rate p items ≤ a.value rate - p * a.total := by
  have hsum : a.value rate - p * a.total = (a.amounts.map fun x => x.2 * (rate x.1 - p)).sum := by
    unfold value total
    induction a.amounts with
    | nil => simp
    | cons x l ih =>
      rw [List.map_cons, List.sum_cons, List.map_cons, List.sum_cons,
        List.map_cons, List.sum_cons, ← ih]
      ring
  have hbound : bound size rate p items =
      (a.amounts.map fun x => size x.1 * min 0 (rate x.1 - p)).sum := by
    unfold bound
    rw [← (a.perm.map _).sum_eq, List.map_map]
    rfl
  rw [hsum, hbound]
  refine List.sum_le_sum fun x hx => ?_
  have hnonneg := a.nonneg x hx
  have hle := a.le_size x hx
  calc size x.1 * min 0 (rate x.1 - p) ≤ x.2 * min 0 (rate x.1 - p) :=
        mul_le_mul_of_nonpos_right hle (min_le_left _ _)
    _ ≤ x.2 * (rate x.1 - p) := mul_le_mul_of_nonneg_left (min_le_right _ _) hnonneg

namespace Front

/-- The value per unit lies between the rates of what is taken. -/
theorem le_value (f : Front size items) (hsize : ∀ i, 0 ≤ size i) {lo : K}
    (h : ∀ i ∈ f.before ++ [f.item], lo ≤ rate i) : lo * f.total ≤ f.value rate := by
  have hfirst : lo * (f.before.map size).sum ≤ (f.before.map fun i => size i * rate i).sum := by
    rw [← List.sum_map_mul_left]
    refine List.sum_le_sum fun i hi => ?_
    rw [mul_comm lo]
    exact mul_le_mul_of_nonneg_left (h i (List.mem_append_left _ hi)) (hsize i)
  have hitem : f.amount * lo ≤ f.amount * rate f.item :=
    mul_le_mul_of_nonneg_left (h f.item (List.mem_append_right _ List.mem_cons_self)) f.nonneg
  unfold total value
  linarith

theorem value_le (f : Front size items) (hsize : ∀ i, 0 ≤ size i) {hi : K}
    (h : ∀ i ∈ f.before ++ [f.item], rate i ≤ hi) : f.value rate ≤ hi * f.total := by
  have hneg : - hi * f.total ≤ f.value fun i => - rate i :=
    f.le_value hsize fun i hmem => neg_le_neg (h i hmem)
  have hvalue : f.value (fun i => - rate i) = - f.value rate := by
    rw [← f.alloc_value hsize, ← f.alloc_value hsize, Alloc.value_neg]
  rw [hvalue] at hneg
  linarith

/-- In order of the rates a front reaches the bound at the rate of its item. -/
theorem bound_eq (sorted : items.Pairwise fun i j => rate i ≤ rate j) (f : Front size items) :
    bound size rate (rate f.item) items = f.value rate - rate f.item * f.total := by
  obtain ⟨before, item, after, amount, rfl, -, -⟩ := f
  obtain ⟨-, hafter, hbefore⟩ := List.pairwise_append.mp sorted
  have hfirst : (before.map fun i => size i * min 0 (rate i - rate item)) =
      before.map fun i => size i * rate i - rate item * size i := by
    refine List.map_congr_left fun i hi => ?_
    rw [min_eq_right (sub_nonpos.mpr (hbefore i hi item List.mem_cons_self))]
    ring
  have hrest : (after.map fun i => size i * min 0 (rate i - rate item)).sum = 0 := by
    refine List.sum_eq_zero fun x hx => ?_
    obtain ⟨i, hi, rfl⟩ := List.mem_map.mp hx
    rw [min_eq_left (sub_nonneg.mpr ((List.pairwise_cons.mp hafter).1 i hi)), mul_zero]
  have hsub : ∀ l : List ι, (l.map fun i => size i * rate i - rate item * size i).sum =
      (l.map fun i => size i * rate i).sum - rate item * (l.map size).sum := by
    intro l
    induction l with
    | nil => simp
    | cons i l ih =>
      simp only [List.map_cons, List.sum_cons, ih]
      ring
  unfold bound
  rw [List.map_append, List.sum_append, List.map_cons, List.sum_cons, hfirst, hrest,
    hsub, sub_self, min_self, mul_zero]
  unfold value total
  ring

/-- A front is worth no more than any allocation, but for the difference of their totals. -/
theorem exchange (sorted : items.Pairwise fun i j => rate i ≤ rate j)
    (f : Front size items) (a : Alloc size items) :
    f.value rate - a.value rate ≤ rate f.item * (f.total - a.total) := by
  have hle : bound size rate (rate f.item) items ≤ a.value rate - rate f.item * a.total :=
    a.bound_le (rate f.item)
  rw [f.bound_eq sorted] at hle
  linarith

end Front

end Greedy
