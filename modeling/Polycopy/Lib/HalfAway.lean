import Mathlib.Algebra.Order.Round
import Mathlib.Tactic.Linarith
import Mathlib.Tactic.Ring
import Mathlib.Tactic.FieldSimp
import Mathlib.Data.Sign.Basic

/-!
# Rounding half away from zero, to a number of decimal places

`round` is the nearest integer, ties away from zero; `quantize d` rounds to `d`
places.  Both are odd functions and keep what is already rounded.  Unlike rounding
half up they do not commute with adding a rounded number, for a tie may change
its side of zero: `Places.quantize_add_tie` gives the difference, and away from
ties there is none (`Places.quantize_add`).
-/

namespace HalfAway

section
variable {α : Type} [Field α] [LinearOrder α] [FloorRing α]

def round (q : α) : ℤ := if 0 ≤ q then ⌊q + 1 / 2⌋ else -⌊-q + 1 / 2⌋

def quantize (d : ℕ) (q : α) : α := (round (q * 10 ^ d) : α) / 10 ^ d

theorem round_of_nonneg {q : α} (h : 0 ≤ q) : round q = ⌊q + 1 / 2⌋ := if_pos h

theorem round_of_neg {q : α} (h : q < 0) : round q = -⌊-q + 1 / 2⌋ := if_neg (not_le.mpr h)

variable [IsStrictOrderedRing α]

theorem round_zero : round (0 : α) = 0 := by
  rw [round_of_nonneg le_rfl, zero_add, Int.floor_eq_zero_iff]
  constructor <;> norm_num

theorem round_neg (q : α) : round (-q) = -round q := by
  rcases lt_trichotomy q 0 with h | rfl | h
  · rw [round_of_nonneg (neg_nonneg.mpr h.le), round_of_neg h, neg_neg]
  · rw [neg_zero, round_zero, neg_zero]
  · rw [round_of_neg (neg_lt_zero.mpr h), round_of_nonneg h.le, neg_neg]

theorem round_nonneg {q : α} (h : 0 ≤ q) : 0 ≤ round q := by
  rw [round_of_nonneg h]
  exact Int.floor_nonneg.mpr (by linarith)

theorem round_intCast (n : ℤ) : round (n : α) = n := by
  have key : ∀ m : ℤ, ⌊(m : α) + 1 / 2⌋ = m := by
    intro m
    rw [Int.floor_intCast_add, Int.floor_eq_zero_iff.mpr (by constructor <;> norm_num), add_zero]
  unfold round
  split
  · exact key n
  · rw [← Int.cast_neg, key, neg_neg]

/-- Away from ties it is the usual rounding. -/
theorem round_of_no_tie {q : α} (h : ∀ n : ℤ, q ≠ n + 1 / 2) : round q = ⌊q + 1 / 2⌋ := by
  rcases le_or_gt 0 q with hq | hq
  · exact round_of_nonneg hq
  · rw [round_of_neg hq, eq_comm, Int.floor_eq_iff]
    have hle := Int.floor_le (-q + 1 / 2)
    have hlt := Int.lt_floor_add_one (-q + 1 / 2)
    have hne : (⌊-q + 1 / 2⌋ : α) ≠ -q + 1 / 2 := by
      intro he
      refine h (-⌊-q + 1 / 2⌋) ?_
      push_cast
      linarith
    have hle' := lt_of_le_of_ne hle hne
    push_cast
    constructor <;> linarith

/-- Away from ties, adding an integer commutes with rounding. -/
theorem round_int_add {q : α} (h : ∀ n : ℤ, q ≠ n + 1 / 2) (m : ℤ) :
    round ((m : α) + q) = m + round q := by
  have h' : ∀ n : ℤ, (m : α) + q ≠ n + 1 / 2 := by
    intro n he
    refine h (n - m) ?_
    push_cast
    linarith
  rw [round_of_no_tie h', round_of_no_tie h, add_assoc, Int.floor_intCast_add]

theorem quantize_neg (d : ℕ) (q : α) : quantize d (-q) = -quantize d q := by
  unfold quantize
  rw [neg_mul, round_neg, Int.cast_neg, neg_div]

theorem quantize_nonneg (d : ℕ) {q : α} (h : 0 ≤ q) : 0 ≤ quantize d q := by
  have h10 : (0 : α) ≤ 10 ^ d := by positivity
  exact div_nonneg (Int.cast_nonneg (round_nonneg (mul_nonneg h h10))) h10

theorem quantize_zero (d : ℕ) : quantize d (0 : α) = 0 := by
  unfold quantize
  rw [zero_mul, round_zero, Int.cast_zero, zero_div]

end

section
variable {α : Type} [Field α]

/-- `q` has at most `d` decimal places. -/
def Places (d : ℕ) (q : α) : Prop := ∃ n : ℤ, q = n / 10 ^ d

theorem Places.add {d : ℕ} {p q : α} (hp : Places d p) (hq : Places d q) : Places d (p + q) := by
  obtain ⟨m, rfl⟩ := hp
  obtain ⟨n, rfl⟩ := hq
  exact ⟨m + n, by push_cast; ring⟩

theorem Places.neg {d : ℕ} {q : α} (h : Places d q) : Places d (-q) := by
  obtain ⟨n, rfl⟩ := h
  exact ⟨-n, by push_cast; ring⟩

theorem Places.sub {d : ℕ} {p q : α} (hp : Places d p) (hq : Places d q) : Places d (p - q) := by
  rw [sub_eq_add_neg]
  exact hp.add hq.neg

theorem places_zero (d : ℕ) : Places d (0 : α) := ⟨0, by simp⟩

variable [LinearOrder α] [FloorRing α]

theorem places_quantize (d : ℕ) (q : α) : Places d (quantize d q) := ⟨_, rfl⟩

/-- Half way between two numbers of `d` places. -/
def Tie (d : ℕ) (q : α) : Prop := ∃ n : ℤ, q * 10 ^ d = n + 1 / 2

theorem Places.quantize_add [IsStrictOrderedRing α] {d : ℕ} {p q : α}
    (hp : Places d p) (hq : ¬ Tie d q) :
    quantize d (p + q) = p + quantize d q := by
  obtain ⟨m, rfl⟩ := hp
  have h10 : (10 : α) ^ d ≠ 0 := by positivity
  unfold quantize
  rw [add_mul, div_mul_cancel₀ _ h10, round_int_add fun n hn => hq ⟨n, hn⟩]
  push_cast
  ring

theorem Tie.ne_zero [IsStrictOrderedRing α] {d : ℕ} {q : α} (h : Tie d q) : q ≠ 0 := by
  rintro rfl
  obtain ⟨n, hn⟩ := h
  have htwo : ((2 * n + 1 : ℤ) : α) = 0 := by
    push_cast
    linarith
  have := Int.cast_eq_zero.mp htwo
  omega

/-- A tie moves away from zero. -/
theorem quantize_tie [IsStrictOrderedRing α] {d : ℕ} {q : α} (h : Tie d q) :
    quantize d q = q + (SignType.sign q : α) / (2 * 10 ^ d) := by
  have h10 : (0 : α) < 10 ^ d := by positivity
  have hpos : ∀ {q : α}, Tie d q → 0 < q → quantize d q = q + 1 / (2 * 10 ^ d) := by
    rintro q ⟨n, hn⟩ hq
    have hround : round (q * 10 ^ d) = n + 1 := by
      rw [round_of_nonneg (mul_pos hq h10).le, hn, add_assoc, Int.floor_intCast_add]
      norm_num
    unfold quantize
    rw [hround]
    field_simp
    push_cast
    linarith
  rcases lt_trichotomy q 0 with hq | rfl | hq
  · have hneg : Tie d (-q) := by
      obtain ⟨n, hn⟩ := h
      refine ⟨-n - 1, ?_⟩
      push_cast
      linarith
    rw [← neg_neg q, quantize_neg, hpos hneg (neg_pos.mpr hq), neg_neg, sign_neg hq,
      SignType.coe_neg_one]
    ring
  · rw [quantize_zero, sign_zero]
    simp
  · rw [hpos h hq, sign_pos hq]
    simp

theorem Places.add_tie [IsStrictOrderedRing α] {d : ℕ} {p q : α} (hp : Places d p)
    (hq : Tie d q) : Tie d (p + q) := by
  obtain ⟨m, rfl⟩ := hp
  obtain ⟨n, hn⟩ := hq
  have h10 : (10 : α) ^ d ≠ 0 := by positivity
  refine ⟨m + n, ?_⟩
  rw [add_mul, div_mul_cancel₀ _ h10, hn]
  push_cast
  ring

/-- Adding a tie to a rounded number commutes with rounding up to a change of sign. -/
theorem Places.quantize_add_tie [IsStrictOrderedRing α] {d : ℕ} {p q : α}
    (hp : Places d p) (hq : Tie d q) :
    quantize d (p + q) =
      p + quantize d q + ((SignType.sign (p + q) : α) - (SignType.sign q : α)) / (2 * 10 ^ d) := by
  rw [quantize_tie hq, quantize_tie (hp.add_tie hq)]
  ring

theorem Places.quantize_eq [IsStrictOrderedRing α] {d : ℕ} {q : α} (h : Places d q) :
    quantize d q = q := by
  obtain ⟨n, rfl⟩ := h
  have h10 : (10 : α) ^ d ≠ 0 := by positivity
  unfold quantize
  rw [div_mul_cancel₀ _ h10, round_intCast]

end

end HalfAway
