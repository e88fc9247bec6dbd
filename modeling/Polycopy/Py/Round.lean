import Mathlib.Data.Rat.Floor
import Mathlib.Tactic.Linarith
import Mathlib.Tactic.Positivity
import Polycopy.Py.Dec

/-! # Rounding and percentages of exact numbers -/

namespace Polycopy

open Py

/-- `round(x, places)`, half to even. -/
def roundEven (places : Nat) (q : ℚ) : ℚ :=
  let x := q * 10 ^ places
  let n := x.floor
  let r := x - n
  let n := if r < 1 / 2 then n else if 1 / 2 < r then n + 1 else if n % 2 = 0 then n else n + 1
  n / 10 ^ places

/-- A decimal as `format(q, ".1%")` and its like write it. -/
def percentText (places : Nat) (q : ℚ) : String :=
  let n := (roundEven places (q * 100) * 10 ^ places).floor
  Dec.formatF (.fin (n < 0) n.natAbs (-places)) ++ "%"

/-- Rounding does not pass a whole number. -/
theorem roundEven_le {q : ℚ} {k : Int} (places : Nat) (h : q ≤ k) : roundEven places q ≤ k := by
  have hpos : (0 : ℚ) < 10 ^ places := by positivity
  have hx : q * 10 ^ places ≤ ((k * 10 ^ places : Int) : ℚ) := by
    push_cast
    exact mul_le_mul_of_nonneg_right h hpos.le
  have hfloor : (q * 10 ^ places).floor ≤ k * 10 ^ places := by
    have hle := (Rat.floor_le (q * 10 ^ places)).trans hx
    exact_mod_cast hle
  unfold roundEven
  rw [div_le_iff₀ hpos]
  have hgoal : ∀ n : Int, n ≤ k * 10 ^ places → (n : ℚ) ≤ (k : ℚ) * 10 ^ places := by
    intro n hn
    exact_mod_cast hn
  apply hgoal
  -- rounded up only below the whole number
  have hup : 1 / 2 ≤ q * 10 ^ places - (q * 10 ^ places).floor →
      (q * 10 ^ places).floor + 1 ≤ k * 10 ^ places := by
    intro hr
    by_contra hge
    have heq : (q * 10 ^ places).floor = k * 10 ^ places := by omega
    rw [heq] at hr
    linarith
  split
  · exact hfloor
  · next h1 =>
    have hr := hup (not_lt.mp h1)
    split
    · exact hr
    · split
      · exact hfloor
      · exact hr

example : percentText 1 (2 / 3) = "66.7%" ∧ percentText 0 (1 / 2) = "50%" := by decide +kernel

end Polycopy
