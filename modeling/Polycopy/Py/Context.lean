import Polycopy.Py.Dec
import Mathlib.Tactic.Linarith
import Mathlib.Tactic.Positivity
import Mathlib.Tactic.Ring
import Mathlib.Tactic.NormNum

/-!
# Decimal arithmetic under the default context

`Number` is a finite decimal.  Every operation computes exactly and ends in
`finish`, Python's `_fix`: round to 28 digits, half to even, and signal
`Overflow` when the exponent stays above 999999 (underflow is not trapped).
The two rounding laws are `Fixed.le` (rounding never passes a representable bound)
and `Fixed.lt_iff` (where it carries over into a 29th digit).
-/

namespace Py

/-- A finite decimal. -/
structure Number where
  neg : Bool
  coef : Nat
  exp : Int
  deriving DecidableEq, Repr

/-- `d` when `d.is_finite()`. -/
def Dec.finite? : Dec → Option Number
  | .fin neg coef exp => some ⟨neg, coef, exp⟩
  | _ => none

namespace Number

open Dec

def toDec (a : Number) : Dec := .fin a.neg a.coef a.exp

def value (a : Number) : ℚ := if a.neg then -scale a.coef a.exp else scale a.coef a.exp

def one : Number := ⟨false, 1, 0⟩

/-- How every operation ends. -/
def finish (neg : Bool) (coef : Nat) (exp : Int) : Except Exc Number :=
  if coef = 0 then .ok ⟨neg, 0, min (max exp etiny) emax⟩
  else
    let (c, e) := fix coef exp
    if emax < e + digits c - 1 then .error .arithmeticError else .ok ⟨neg, c, e⟩

def mul (a b : Number) : Except Exc Number :=
  finish (a.neg != b.neg) (a.coef * b.coef) (a.exp + b.exp)

/-- The coefficient at a lower exponent, with its sign. -/
def align (a : Number) (e : Int) : Int :=
  let c : Int := (a.coef * 10 ^ (a.exp - e).toNat : Nat)
  if a.neg then -c else c

def sub (a b : Number) : Except Exc Number :=
  let e := min a.exp b.exp
  let x := a.align e - b.align e
  finish (x < 0) x.natAbs e

/-- `n / 10 ^ k`, ties away from zero. -/
def divHalfUp (n k : Nat) : Nat := (2 * n + 10 ^ k) / (2 * 10 ^ k)

/-- The coefficient `quantize` gives at exponent `e`. -/
def rescale (a : Number) (e : Int) : Nat :=
  if e ≤ a.exp then a.coef * 10 ^ (a.exp - e).toNat else divHalfUp a.coef (e - a.exp).toNat

/-- `a.quantize(Decimal(1).scaleb(e), ROUND_HALF_UP)`; more than 28 digits
are `InvalidOperation`. -/
def quantize (a : Number) (e : Int) : Except Exc Number :=
  if prec < digits (a.rescale e) then .error .arithmeticError else .ok ⟨a.neg, a.rescale e, e⟩

end Number

/-- The part of the library's power that is not settled by a special case.  All
that is relied on: a base in (0, 1] and an exponent above 0 give a number in [0, 1]
(a power too small to hold underflows to zero, which is not trapped). -/
structure PowerCore where
  core : Number → Number → Except Exc Number
  core_unit : ∀ b e, 0 < b.value → b.value ≤ 1 → 0 < e.value →
    ∃ m, core b e = .ok m ∧ 0 ≤ m.value ∧ m.value ≤ 1

/-- `b ** e`: `0 ** 0` is `InvalidOperation`, `b ** 0` is 1 and 0 to a positive power is 0. -/
def Number.power (P : PowerCore) (b e : Number) : Except Exc Number :=
  if e.coef = 0 then
    if b.coef = 0 then .error .arithmeticError else .ok Number.one
  else if b.coef = 0 ∧ e.neg = false then .ok ⟨false, 0, 0⟩
  else P.core b e

/-! ## Scales -/

namespace Dec

theorem scale_eq (c : Nat) (e : Int) : scale c e = (c : ℚ) * (10 : ℚ) ^ e := by
  cases e with
  | ofNat n =>
    show (c : ℚ) * (10 ^ n : Nat) = _
    rw [Int.ofNat_eq_natCast, zpow_natCast]
    push_cast
    rfl
  | negSucc n =>
    show (c : ℚ) / (10 ^ (n + 1) : Nat) = _
    rw [zpow_negSucc, div_eq_mul_inv]
    push_cast
    rfl

theorem scale_nonneg (c : Nat) (e : Int) : 0 ≤ scale c e := by
  rw [scale_eq]
  positivity

theorem scale_eq_zero {c : Nat} {e : Int} : scale c e = 0 ↔ c = 0 := by
  rw [scale_eq, mul_eq_zero]
  have : (10 : ℚ) ^ e ≠ 0 := by positivity
  simp [this]

theorem scale_mul (a b : Nat) (x y : Int) : scale (a * b) (x + y) = scale a x * scale b y := by
  simp only [scale_eq, zpow_add₀ (by norm_num : (10 : ℚ) ≠ 0)]
  push_cast
  ring

/-- A power of ten is a natural multiple of every lower one. -/
theorem ten_split {a b : Int} (h : a ≤ b) :
    (10 : ℚ) ^ b = ((10 ^ (b - a).toNat : Nat) : ℚ) * (10 : ℚ) ^ a := by
  have hb : b = ((b - a).toNat : Int) + a := by omega
  conv_lhs => rw [hb]
  rw [zpow_add₀ (by norm_num), zpow_natCast]
  push_cast
  rfl

theorem scale_lower {c : Nat} {a b : Int} (h : a ≤ b) :
    scale c b = scale (c * 10 ^ (b - a).toNat) a := by
  rw [scale_eq, scale_eq, ten_split h]
  push_cast
  ring

theorem scale_le_scale {c d : Nat} {e : Int} : scale c e ≤ scale d e ↔ c ≤ d := by
  rw [scale_eq, scale_eq, mul_le_mul_iff_of_pos_right (by positivity)]
  exact Nat.cast_le

theorem scale_lt_scale {c d : Nat} {e : Int} : scale c e < scale d e ↔ c < d := by
  rw [scale_eq, scale_eq, mul_lt_mul_iff_of_pos_right (by positivity)]
  exact Nat.cast_lt

theorem scale_mono {c d : Nat} {a b : Int} (hc : c ≤ d) (h : a ≤ b) : scale c a ≤ scale d b := by
  rw [scale_lower h]
  exact scale_le_scale.mpr (hc.trans (Nat.le_mul_of_pos_right _ (by positivity)))

theorem scale_ten (c : Nat) (e : Int) : scale (10 * c) e = scale c (e + 1) := by
  rw [scale_lower (show e ≤ e + 1 by omega),
    show (e + 1 - e).toNat = 1 by omega, pow_one, Nat.mul_comm]

theorem scale_two (c : Nat) (e : Int) : scale (2 * c) e = 2 * scale c e := by
  simp only [scale_eq]
  push_cast
  ring

/-- A number of places `k` above `exp`. -/
theorem scale_places (c k : Nat) (exp : Int) : scale c (exp + k) = scale (c * 10 ^ k) exp := by
  rw [scale_lower (show exp ≤ exp + k by omega), show (exp + (k : Int) - exp).toNat = k by omega]

/-! ## Digits -/

theorem digits_le_iff {n k : Nat} (h : 0 < k) : digits n ≤ k ↔ n < 10 ^ k :=
  Nat.length_toDigits_le_iff (by norm_num) h

theorem digits_pos (n : Nat) : 0 < digits n := Nat.length_toDigits_pos

theorem lt_ten_digits (n : Nat) : n < 10 ^ digits n := (digits_le_iff (digits_pos n)).mp (le_refl _)

theorem ten_digits_le {n : Nat} (h : 0 < n) : 10 ^ (digits n - 1) ≤ n := by
  by_contra hlt
  rw [not_le] at hlt
  rcases Nat.eq_zero_or_pos (digits n - 1) with h0 | h0
  · rw [h0] at hlt
    omega
  · have := (digits_le_iff h0).mpr hlt
    have := digits_pos n
    omega

/-! ## Rounding a coefficient -/

/-- Rounding never passes a whole number. -/
theorem divHalfEven_le {n k m : Nat} (h : n ≤ m * 10 ^ k) : divHalfEven n k ≤ m := by
  have hp : 0 < 10 ^ k := by positivity
  have hdiv := Nat.div_add_mod n (10 ^ k)
  have hmod := Nat.mod_lt n hp
  have hq : n / 10 ^ k ≤ m := Nat.div_le_of_le_mul (by linarith)
  have hnext : n / 10 ^ k = m → n % 10 ^ k = 0 := by
    intro he
    rw [he] at hdiv
    have : 10 ^ k * m = m * 10 ^ k := Nat.mul_comm _ _
    omega
  unfold divHalfEven
  dsimp only
  split_ifs <;> omega

theorem le_divHalfEven {n k m : Nat} (h : m * 10 ^ k ≤ n) : m ≤ divHalfEven n k := by
  have hq : m ≤ n / 10 ^ k := (Nat.le_div_iff_mul_le (by positivity)).mpr h
  unfold divHalfEven
  dsimp only
  split_ifs <;> omega

/-- Half to even at an odd number: the tie goes up. -/
theorem divHalfEven_le_odd {n k m : Nat} (hm : m % 2 = 1) :
    divHalfEven n k ≤ m ↔ 2 * n < (2 * m + 1) * 10 ^ k := by
  have hp : 0 < 10 ^ k := by positivity
  have hdiv := Nat.div_add_mod n (10 ^ k)
  have hmod := Nat.mod_lt n hp
  unfold divHalfEven
  dsimp only
  generalize n / 10 ^ k = q at *
  generalize n % 10 ^ k = r at *
  rcases Nat.lt_trichotomy q m with hq | rfl | hq
  · have hs : (q + 1) * 10 ^ k ≤ m * 10 ^ k := Nat.mul_le_mul_right _ hq
    have hl : 2 * n < (2 * m + 1) * 10 ^ k := by nlinarith
    simp only [hl, iff_true]
    split_ifs <;> omega
  · have hn : n = q * 10 ^ k + r := by rw [← hdiv, Nat.mul_comm]
    have hx : 2 * n < (2 * q + 1) * 10 ^ k ↔ 2 * r < 10 ^ k := by
      rw [hn]
      constructor <;> intro h <;> nlinarith
    rw [hx]
    split_ifs <;> omega
  · have hs : (m + 1) * 10 ^ k ≤ q * 10 ^ k := Nat.mul_le_mul_right _ hq
    have hl : ¬ 2 * n < (2 * m + 1) * 10 ^ k := by nlinarith
    simp only [hl, iff_false]
    split_ifs <;> omega

/-- What rounding does to a coefficient: nothing, or half-even rounding by `k`
places, as few as bring it below 29 digits and the exponent to `etiny`. -/
inductive Fixed (coef : Nat) (exp : Int) : Nat → Int → Prop
  | zero (e : Int) (none : coef = 0) (low : etiny ≤ e) : Fixed coef exp 0 e
  | exact (small : coef < 10 ^ 28) (low : etiny ≤ exp) : Fixed coef exp coef exp
  | rounded (k c : Nat) (e : Int) (low : etiny ≤ exp + k) (above : etiny < exp + k →
      10 ^ 27 * 10 ^ k ≤ coef)
      (below : coef < 10 ^ 28 * 10 ^ k) (same : scale c e = scale (divHalfEven coef k) (exp + k))
      (small : c < 10 ^ 28) (tiny : etiny ≤ e) (none : c = 0 → e = etiny) : Fixed coef exp c e

theorem fix_fixed {coef : Nat} (exp : Int) (h : 0 < coef) :
    Fixed coef exp (fix coef exp).1 (fix coef exp).2 := by
  have hd := lt_ten_digits coef
  have hd1 := ten_digits_le h
  have hd0 := digits_pos coef
  unfold fix
  dsimp only
  split
  · next hlt =>
    generalize hL : max ((digits coef : Int) + exp - prec) etiny = L at hlt ⊢
    obtain ⟨k, rfl⟩ : ∃ k : Nat, L = exp + k := ⟨(L - exp).toNat, by omega⟩
    have hk : (exp + (k : Int) - exp).toNat = k := by omega
    rw [hk]
    have hlow : etiny ≤ exp + k := hL ▸ le_max_right _ _
    have hdk : digits coef ≤ 28 + k := by
      have : (digits coef : Int) + exp - prec ≤ exp + k := hL ▸ le_max_left _ _
      have hp : ((prec : Nat) : Int) = 28 := rfl
      omega
    have habove : etiny < exp + k → 10 ^ 27 * 10 ^ k ≤ coef := by
      intro hlt'
      have hD : (digits coef : Int) + exp - prec = exp + k := by
        rcases max_choice ((digits coef : Int) + exp - prec) etiny with hm | hm <;> omega
      have hp : ((prec : Nat) : Int) = 28 := rfl
      have : digits coef - 1 = 27 + k := by omega
      rw [← pow_add, ← this]
      exact hd1
    have hbelow : coef < 10 ^ 28 * 10 ^ k := by
      rw [← pow_add]
      exact hd.trans_le (Nat.pow_le_pow_right (by norm_num) hdk)
    have hc : divHalfEven coef k ≤ 10 ^ 28 := divHalfEven_le hbelow.le
    split
    · next hbig =>
      -- the carry: 10 ^ 28 is written as 10 ^ 27 one place higher
      have h28 : ¬ divHalfEven coef k < 10 ^ 28 := fun hlt => by
        have : digits (divHalfEven coef k) ≤ 28 := (digits_le_iff (by norm_num)).mpr hlt
        have hp : prec = 28 := rfl
        omega
      have he : divHalfEven coef k = 10 ^ 28 := le_antisymm hc (not_lt.mp h28)
      refine .rounded k _ _ hlow habove hbelow ?_ (by rw [he]; norm_num) (by dsimp only; omega)
        (fun h0 => by rw [he] at h0; norm_num at h0)
      rw [← scale_ten, he]
      norm_num
    · next hle =>
      refine .rounded k _ _ hlow habove hbelow rfl
        ((digits_le_iff (by norm_num)).mp (not_lt.mp hle)) hlow ?_
      intro h0
      by_contra hne
      have := le_divHalfEven (habove (lt_of_le_of_ne hlow (Ne.symm hne)))
      dsimp only at h0
      omega
  · next hge =>
    rw [not_lt, max_le_iff] at hge
    have hp : ((prec : Nat) : Int) = 28 := rfl
    exact .exact ((digits_le_iff (by norm_num)).mp (by omega)) hge.2

/-- Rounding never passes a number that fits the context. -/
theorem Fixed.le {coef c N : Nat} {exp e E : Int} (h : Fixed coef exp c e)
    (hN : N < 10 ^ 28) (hE : etiny ≤ E)
    (hle : scale coef exp ≤ scale N E) : scale c e ≤ scale N E := by
  cases h with
  | zero =>
    rw [scale_eq_zero.mpr rfl]
    exact scale_nonneg _ _
  | exact => exact hle
  | rounded k _ _ low above below same =>
    rw [same]
    rcases le_or_gt (exp + k) E with hk | hk
    · -- the bound is a whole number of units of the place rounded to
      rw [scale_lower hk] at hle ⊢
      rw [scale_places] at hle
      exact scale_le_scale.mpr (divHalfEven_le (scale_le_scale.mp hle))
    · -- a place above `E` is rounded to only when the number is itself above the bound
      exfalso
      have h1 : scale (10 ^ 28) E ≤ scale (10 ^ 27) (exp + k) := by
        rw [show 10 ^ 28 = 10 * 10 ^ 27 by norm_num, scale_ten]
        exact scale_mono (le_refl _) (by omega)
      have h2 : scale (10 ^ 27) (exp + k) ≤ scale coef exp := by
        rw [scale_places]
        exact scale_le_scale.mpr (above (by omega))
      exact absurd ((h1.trans h2).trans hle) (not_le.mpr (scale_lt_scale.mpr hN))

/-- Rounding carries into a 29th digit above `E` exactly from the last midpoint on. -/
theorem Fixed.lt_iff {coef c : Nat} {exp e E : Int} (h : Fixed coef exp c e) (hE : etiny ≤ E) :
    scale c e < scale (10 ^ 28) E ↔ 2 * scale coef exp < scale (2 * 10 ^ 28 - 1) E := by
  have h28 : ∀ F : Int, scale (10 ^ 28) F = scale (10 ^ 27) (F + 1) := fun F => by
    rw [← scale_ten]
    norm_num
  have hone : scale (2 * 10 ^ 27) E < scale (2 * 10 ^ 28 - 1) E := scale_lt_scale.mpr (by norm_num)
  have htop : scale (2 * 10 ^ 28 - 1) E < scale (2 * 10 ^ 28) E := scale_lt_scale.mpr (by norm_num)
  rw [scale_two] at hone htop
  -- everything below 10 ^ 28 units one place lower is below both bounds
  have hlower : ∀ {d : Nat} {f : Int}, d ≤ 10 ^ 28 → f < E →
      2 * scale d f < scale (2 * 10 ^ 28 - 1) E := by
    intro d f hd hf
    have : scale d f ≤ scale (10 ^ 28) (E - 1) := scale_mono hd (by omega)
    rw [h28, show E - 1 + 1 = E by omega] at this
    linarith
  have hnext : scale (10 ^ 27) E < scale (10 ^ 28) E := scale_lt_scale.mpr (by norm_num)
  cases h with
  | zero e hc =>
    have h0 : scale 0 e = 0 := scale_eq_zero.mpr rfl
    have h1 : scale coef exp = 0 := scale_eq_zero.mpr hc
    have h2 := scale_nonneg (2 * 10 ^ 27) E
    rw [scale_two] at h2
    rw [h0, h1]
    exact ⟨fun _ => by linarith, fun _ => by linarith⟩
  | exact small low =>
    refine ⟨fun hlt => ?_, fun hlt => by linarith⟩
    rcases le_or_gt E exp with he | he
    · rw [scale_lower he] at hlt ⊢
      rw [← scale_two]
      have := scale_lt_scale.mp hlt
      exact scale_lt_scale.mpr (by omega)
    · exact hlower small.le he
  | rounded k _ _ low above below same =>
    rw [same]
    rcases lt_trichotomy (exp + (k : Int)) E with hk | rfl | hk
    · have hc : divHalfEven coef k ≤ 10 ^ 28 := divHalfEven_le below.le
      have hd : scale coef exp ≤ scale (10 ^ 28) (exp + k) := by
        rw [scale_places]
        exact scale_le_scale.mpr below.le
      have h1 := hlower hc hk
      have h2 := hlower (le_refl _) hk
      exact ⟨fun _ => by linarith, fun _ => by linarith⟩
    · rw [scale_lt_scale, ← scale_two, scale_places, scale_lt_scale,
        Nat.lt_iff_le_pred (by norm_num)]
      exact divHalfEven_le_odd (by norm_num)
    · have hab := above (by omega)
      have h1 : scale (10 ^ 28) E ≤ scale (10 ^ 27) (exp + k) := by
        rw [h28]
        exact scale_mono (le_refl _) (by omega)
      have h2 : scale (10 ^ 27) (exp + k) ≤ scale (divHalfEven coef k) (exp + k) :=
        scale_le_scale.mpr (le_divHalfEven hab)
      have h3 : scale (10 ^ 27) (exp + k) ≤ scale coef exp := by
        rw [scale_places]
        exact scale_le_scale.mpr hab
      exact ⟨fun h => by linarith, fun h => by linarith⟩

theorem Fixed.small {coef c : Nat} {exp e : Int} (h : Fixed coef exp c e) :
    c < 10 ^ 28 ∧ etiny ≤ e := by
  cases h with
  | zero e hc low => exact ⟨by norm_num, low⟩
  | exact small low => exact ⟨small, low⟩
  | rounded k c e low above below same small tiny => exact ⟨small, tiny⟩

theorem Fixed.tiny {coef c : Nat} {exp e : Int} (h : Fixed coef exp c e)
    (hpos : 0 < coef) (hc : c = 0) :
    e = etiny := by
  cases h with
  | zero e h0 => omega
  | exact => omega
  | rounded k c e low above below same small tiny none => exact none hc

/-- Half of this is the last midpoint before the exponent leaves the context. -/
def overflowMid : ℚ := scale (2 * 10 ^ 28 - 1) (emax - 27)

/-- The exponent leaves the context exactly at `10 ^ (emax + 1)`. -/
theorem overflow_iff {c : Nat} {e : Int} (hc : 0 < c) :
    emax < e + digits c - 1 ↔ scale (10 ^ 28) (emax - 27) ≤ scale c e := by
  have htop : scale (10 ^ 28) (emax - 27) = scale 1 (emax + 1) := by
    rw [show emax + 1 = emax - 27 + (28 : Nat) by push_cast; ring, scale_places, Nat.one_mul]
  have hd0 := digits_pos c
  rw [htop]
  constructor
  · intro h
    calc scale 1 (emax + 1) ≤ scale 1 (e + (digits c - 1 : Nat)) := scale_mono (le_refl _) (by omega)
      _ = scale (10 ^ (digits c - 1)) e := by rw [scale_places, Nat.one_mul]
      _ ≤ scale c e := scale_le_scale.mpr (ten_digits_le hc)
  · intro h
    by_contra hle
    have : scale c e < scale 1 (emax + 1) :=
      calc scale c e < scale (10 ^ digits c) e := scale_lt_scale.mpr (lt_ten_digits c)
        _ = scale 1 (e + (digits c : Nat)) := by rw [scale_places, Nat.one_mul]
        _ ≤ scale 1 (emax + 1) := scale_mono (le_refl _) (by omega)
    linarith

end Dec

namespace Number

open Dec

theorem value_nonneg {a : Number} (h : a.neg = true → a.coef = 0) :
    a.value = scale a.coef a.exp := by
  unfold value
  split
  · next hn => rw [scale_eq_zero.mpr (h hn), neg_zero]
  · rfl

theorem neg_of_nonneg {a : Number} (h : 0 ≤ a.value) (hn : a.neg = true) : a.coef = 0 := by
  unfold value at h
  rw [if_pos hn] at h
  have := scale_nonneg a.coef a.exp
  exact scale_eq_zero.mp (by linarith)

theorem value_eq_zero {a : Number} : a.value = 0 ↔ a.coef = 0 := by
  unfold value
  split
  · rw [neg_eq_zero, scale_eq_zero]
  · exact scale_eq_zero

/-- `r` is what a number `x`, not negative, rounds to. -/
structure Rounding (x : ℚ) (r : Number) : Prop where
  sign : r.neg = true → r.coef = 0
  small : r.coef < 10 ^ 28
  low : etiny ≤ r.exp
  le : ∀ N E, N < 10 ^ 28 → etiny ≤ E → x ≤ scale N E → r.value ≤ scale N E
  lt_iff : ∀ E, etiny ≤ E → (r.value < scale (10 ^ 28) E ↔ 2 * x < scale (2 * 10 ^ 28 - 1) E)

theorem Rounding.nonneg {x : ℚ} {r : Number} (h : Rounding x r) : 0 ≤ r.value := by
  rw [value_nonneg h.sign]
  exact scale_nonneg _ _

theorem Rounding.fits {x : ℚ} {r : Number} (h : Rounding x r) :
    r.value < scale (10 ^ 28) (emax - 27) ↔ 2 * x < overflowMid :=
  h.lt_iff _ (by decide)

/-- 1 is a number of the context. -/
theorem Rounding.le_one {x : ℚ} {r : Number} (h : Rounding x r) (hx : x ≤ 1) : r.value ≤ 1 := by
  have h1 : scale 1 0 = 1 := by rw [scale_eq]; norm_num
  rw [← h1]
  exact h.le 1 0 (by norm_num) (by decide) (by rw [h1]; exact hx)

/-- The spec of every operation's end: the rounded number, or `Overflow` from
the last midpoint on. -/
theorem finish_spec (neg : Bool) (coef : Nat) (exp : Int) (hneg : neg = true → coef = 0) :
    ∃ r, Rounding (scale coef exp) r ∧
      finish neg coef exp = if 2 * scale coef exp < overflowMid then .ok r
      else .error .arithmeticError := by
  have hE : etiny ≤ emax - 27 := by decide
  have hround : ∀ {c : Nat} {e : Int}, Fixed coef exp c e → (neg = true → c = 0) →
      Rounding (scale coef exp) ⟨neg, c, e⟩ := by
    intro c e hf hn
    refine ⟨hn, hf.small.1, hf.small.2, ?_, ?_⟩
    · intro N E hN hE hx
      rw [value_nonneg hn]
      exact hf.le hN hE hx
    · intro E hE
      rw [value_nonneg hn]
      exact hf.lt_iff hE
  unfold finish
  split
  · next h0 =>
    have hf : Fixed coef exp 0 (min (max exp etiny) emax) :=
      .zero _ h0 (le_min (le_max_right _ _) (by decide))
    refine ⟨_, hround hf fun _ => rfl, ?_⟩
    have hlt : 2 * scale coef exp < overflowMid :=
      (hf.lt_iff hE).mp (by rw [scale_eq_zero.mpr rfl, scale_eq]; positivity)
    rw [if_pos hlt]
  · next h0 =>
    have hf := fix_fixed exp (Nat.pos_of_ne_zero h0)
    have hsign : neg = true → (fix coef exp).1 = 0 := fun hn => absurd (hneg hn) h0
    refine ⟨_, hround hf hsign, ?_⟩
    have hover : emax < (fix coef exp).2 + digits (fix coef exp).1 - 1 ↔
        ¬ 2 * scale coef exp < overflowMid := by
      rw [overflowMid, ← hf.lt_iff hE, not_lt]
      rcases Nat.eq_zero_or_pos (fix coef exp).1 with hz | hpos
      · -- a number that underflows to zero is not above the context
        rw [hz, hf.tiny (Nat.pos_of_ne_zero h0) hz, scale_eq_zero.mpr rfl]
        refine iff_of_false (by decide) (not_le.mpr ?_)
        rw [scale_eq]
        positivity
      · exact overflow_iff hpos
    dsimp only
    by_cases h : 2 * scale coef exp < overflowMid
    · rw [if_pos h, if_neg (fun hx => hover.mp hx h)]
    · rw [if_neg h, if_pos (hover.mpr h)]

theorem mul_spec {a b : Number} (ha : 0 ≤ a.value) (hb : 0 ≤ b.value) :
    ∃ r, Rounding (a.value * b.value) r ∧
      mul a b = if 2 * (a.value * b.value) < overflowMid then .ok r
      else .error .arithmeticError := by
  have hv : a.value * b.value = scale (a.coef * b.coef) (a.exp + b.exp) := by
    rw [scale_mul, value_nonneg (neg_of_nonneg ha), value_nonneg (neg_of_nonneg hb)]
  rw [hv]
  refine finish_spec _ _ _ ?_
  intro hn
  cases han : a.neg with
  | true => rw [neg_of_nonneg ha han, Nat.zero_mul]
  | false =>
    rw [han] at hn
    rw [neg_of_nonneg hb (by simpa using hn), Nat.mul_zero]

theorem align_value (a : Number) {e : Int} (h : e ≤ a.exp) :
    (a.align e : ℚ) * (10 : ℚ) ^ e = a.value := by
  unfold align value
  dsimp only
  rw [scale_lower h, scale_eq]
  split <;> push_cast <;> ring

theorem sub_spec {a b : Number} (h : b.value ≤ a.value) :
    ∃ r, Rounding (a.value - b.value) r ∧
      sub a b = if 2 * (a.value - b.value) < overflowMid then .ok r
      else .error .arithmeticError := by
  have hp : (0 : ℚ) < (10 : ℚ) ^ min a.exp b.exp := by positivity
  have hx : ((a.align (min a.exp b.exp) - b.align (min a.exp b.exp) : Int) : ℚ) *
      (10 : ℚ) ^ min a.exp b.exp =
      a.value - b.value := by
    rw [Int.cast_sub, sub_mul, align_value a (min_le_left _ _), align_value b (min_le_right _ _)]
  unfold sub
  dsimp only
  generalize a.align (min a.exp b.exp) - b.align (min a.exp b.exp) = x at hx ⊢
  have hx0 : 0 ≤ x := by
    have : 0 ≤ (x : ℚ) * (10 : ℚ) ^ min a.exp b.exp := by linarith
    exact_mod_cast nonneg_of_mul_nonneg_left this hp
  have hv : a.value - b.value = scale x.natAbs (min a.exp b.exp) := by
    rw [← hx, scale_eq, ← Int.cast_natCast, Int.natAbs_of_nonneg hx0]
  rw [hv]
  exact finish_spec _ _ _ fun hn => absurd (of_decide_eq_true hn) (not_lt.mpr hx0)

/-- A number of the context is below the overflow, so is all that rounds from it. -/
theorem unit_lt_overflow {x : ℚ} (h : x ≤ 1) : 2 * x < overflowMid := by
  have h1 : scale 2 0 < overflowMid := by
    refine lt_of_lt_of_le ?_ (scale_mono (le_refl (2 * 10 ^ 28 - 1))
      (show (0 : Int) ≤ emax - 27 by decide))
    exact scale_lt_scale.mpr (by norm_num)
  rw [show scale 2 0 = 2 by rw [scale_eq]; norm_num] at h1
  linarith

/-- A difference or a product in [0, 1] is computed, and stays there. -/
theorem sub_unit {a b : Number} (h : b.value ≤ a.value) (h1 : a.value - b.value ≤ 1) :
    ∃ r, sub a b = .ok r ∧ Rounding (a.value - b.value) r ∧ r.value ≤ 1 := by
  obtain ⟨r, hr, he⟩ := sub_spec h
  exact ⟨r, by rw [he, if_pos (unit_lt_overflow h1)], hr, hr.le_one h1⟩

theorem mul_unit {a b : Number} (ha : 0 ≤ a.value) (hb : 0 ≤ b.value) (h1 : a.value * b.value ≤ 1) :
    ∃ r, mul a b = .ok r ∧ Rounding (a.value * b.value) r ∧ r.value ≤ 1 := by
  obtain ⟨r, hr, he⟩ := mul_spec ha hb
  exact ⟨r, by rw [he, if_pos (unit_lt_overflow h1)], hr, hr.le_one h1⟩

/-- A factor in [0, 1] never takes a product of the context out of it. -/
theorem mul_shrink {t m : Number} {x : ℚ} (ht : Rounding x t)
    (hx : 2 * x < overflowMid) (hm : 0 ≤ m.value)
    (hm1 : m.value ≤ 1) : ∃ r, mul t m = .ok r ∧ Rounding (t.value * m.value) r := by
  obtain ⟨r, hr, he⟩ := mul_spec ht.nonneg hm
  refine ⟨r, ?_, hr⟩
  have hshrink : t.value * m.value ≤ t.value := mul_le_of_le_one_right ht.nonneg hm1
  have hle : r.value ≤ t.value := by
    conv_rhs => rw [value_nonneg ht.sign]
    refine hr.le _ _ ht.small ht.low ?_
    rw [← value_nonneg ht.sign]
    exact hshrink
  rw [he, if_pos (hr.fits.mp (hle.trans_lt (ht.fits.mpr hx)))]

theorem divHalfUp_lt {n k : Nat} (h : n < 10 ^ 28) (hk : 0 < k) : divHalfUp n k < 10 ^ 28 := by
  have hp : 0 < 10 ^ k := by positivity
  unfold divHalfUp
  rw [Nat.div_lt_iff_lt_mul (by omega)]
  have : 10 ^ 28 * 10 ^ 1 ≤ 10 ^ 28 * 10 ^ k :=
    Nat.mul_le_mul_left _ (Nat.pow_le_pow_right (by norm_num) hk)
  omega

/-- A number of the context is quantized exactly below 28 digits at the place asked for. -/
theorem quantize_ok {a : Number} {e : Int} (ha : a.coef < 10 ^ 28)
    (hs : a.neg = true → a.coef = 0) :
    (∃ r, quantize a e = .ok r) ↔ a.value < scale (10 ^ 28) e := by
  rw [value_nonneg hs]
  have hres : a.rescale e < 10 ^ 28 ↔ scale a.coef a.exp < scale (10 ^ 28) e := by
    unfold rescale
    split
    · next he => rw [scale_lower he, scale_lt_scale]
    · next he =>
      rw [not_le] at he
      refine iff_of_true (divHalfUp_lt ha (by omega)) ?_
      exact (scale_mono (le_refl a.coef) he.le).trans_lt (scale_lt_scale.mpr ha)
  rw [← hres, ← digits_le_iff (by norm_num)]
  unfold quantize
  have hp : prec = 28 := rfl
  split
  · next h => exact iff_of_false (fun hx => by obtain ⟨r, hr⟩ := hx; cases hr) (by omega)
  · next h => exact iff_of_true ⟨_, rfl⟩ (by omega)

theorem quantize_nonneg {a r : Number} {e : Int} (hs : a.neg = true → a.coef = 0)
    (h : quantize a e = .ok r) :
    0 ≤ r.value := by
  unfold quantize at h
  split at h
  · cases h
  · obtain rfl := Except.ok.inj h
    rw [value_nonneg]
    · exact scale_nonneg _ _
    · intro hn
      show a.rescale e = 0
      unfold rescale
      rw [hs hn]
      split
      · rw [Nat.zero_mul]
      · unfold divHalfUp
        have hp : 0 < 10 ^ (e - a.exp).toNat := by positivity
        exact Nat.div_eq_of_lt (by omega)

theorem power_zero_zero (P : PowerCore) {b e : Number} (hb : b.coef = 0) (he : e.coef = 0) :
    power P b e = .error .arithmeticError := by
  unfold power
  rw [if_pos he, if_pos hb]

/-- Every other power of a base in [0, 1] to an exponent from 0 on is in [0, 1]. -/
theorem power_unit (P : PowerCore) {b e : Number} (hb : 0 ≤ b.value)
    (hb1 : b.value ≤ 1) (he : 0 ≤ e.value)
    (h : ¬ (b.coef = 0 ∧ e.coef = 0)) : ∃ m, power P b e = .ok m ∧ 0 ≤ m.value ∧ m.value ≤ 1 := by
  have hzero : ∀ a : Number, 0 ≤ a.value → a.coef ≠ 0 → 0 < a.value := fun a ha hc =>
    lt_of_le_of_ne ha fun h0 => hc (value_eq_zero.mp h0.symm)
  unfold power
  by_cases he0 : e.coef = 0
  · rw [if_pos he0, if_neg fun hb0 => h ⟨hb0, he0⟩]
    exact ⟨one, rfl, by decide +kernel, by decide +kernel⟩
  · rw [if_neg he0]
    by_cases hb0 : b.coef = 0
    · have hen : e.neg = false := by
        cases hn : e.neg with
        | false => rfl
        | true => exact absurd (neg_of_nonneg he hn) he0
      rw [if_pos ⟨hb0, hen⟩]
      exact ⟨_, rfl, by decide +kernel, by decide +kernel⟩
    · rw [if_neg fun hx => hb0 hx.1]
      exact P.core_unit b e (hzero b hb hb0) hb1 (hzero e he he0)

end Number

/-- The power for exponents that are whole as written, rounded once; others are not computed. -/
def wholePower : PowerCore where
  core b e :=
    if e.exp < 0 ∨ e.neg = true then .ok Number.one
    else Number.finish false (b.coef ^ (e.coef * 10 ^ e.exp.toNat))
      (b.exp * (e.coef * 10 ^ e.exp.toNat : Nat))
  core_unit := by
    intro b e hb hb1 he
    split
    · exact ⟨Number.one, rfl, by decide +kernel, by decide +kernel⟩
    · generalize e.coef * 10 ^ e.exp.toNat = n
      have hv : Dec.scale (b.coef ^ n) (b.exp * n) = b.value ^ n := by
        rw [Number.value_nonneg (Number.neg_of_nonneg hb.le), Dec.scale_eq, Dec.scale_eq,
          mul_pow, zpow_mul, zpow_natCast]
        push_cast
        rfl
      obtain ⟨m, hm, hfin⟩ := Number.finish_spec false (b.coef ^ n) (b.exp * n) (fun h => by cases h)
      rw [hv] at hm hfin
      have h1 : b.value ^ n ≤ 1 := pow_le_one₀ hb.le hb1
      rw [if_pos (Number.unit_lt_overflow h1)] at hfin
      exact ⟨m, hfin, hm.nonneg, hm.le_one h1⟩

end Py
