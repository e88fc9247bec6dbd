import Polycopy.Models
import Polycopy.Lib.HalfAway
import Mathlib.Data.Rat.Floor

/-!
# The taker fee curve

`MarketFee.fromMarketInfo` reads the curve off the market-info object and
`takerFee` evaluates it on a fill, to five places.  Whatever curve is accepted,
a fee that is returned is not negative (`takerFee_nonneg`).
-/

namespace Polycopy

open Py

def feeSource : String := "GET /clob-markets/\x7bcondition_id\x7d"

structure MarketFee where
  rate : ℚ
  exponent : ℚ
  takerOnly : Option Bool
  metadataState : FeeMetadataState
  deriving DecidableEq, Repr

/-- `Decimal(str(data[key]))`, refused when missing, boolean, not a number,
not finite or negative. -/
def feeNumber (data : List (String × Json)) (key : String) : Option ℚ :=
  match Json.field? data key with
  | none | some (.bool _) => none
  | some v => ((v.toDec).bind Dec.value).filter (0 ≤ ·)

/-- `data.get("to")`, refused when present and not a boolean. -/
def takerOnlyFlag (data : List (String × Json)) : Except Exc (Option Bool) :=
  match Json.field? data "to" with
  | none => .ok none
  | some (.bool b) => .ok (some b)
  | some _ => .error .typeError

def MarketFee.fromCurve (data : List (String × Json)) : Except Exc MarketFee :=
  match takerOnlyFlag data with
  | .error e => .error e
  | .ok takerOnly => match feeNumber data "r", feeNumber data "e" with
    | some rate, some exponent => .ok ⟨rate, exponent, takerOnly, .curve⟩
    | _, _ => .error .valueError

def MarketFee.fromMarketInfo (info : Json) : Except Exc MarketFee :=
  match info with
  | .obj fields => match Json.field? fields "fd" with
    | none => .ok ⟨0, 0, none, .absent⟩
    | some .null => .ok ⟨0, 0, none, .null⟩
    | some (.obj []) => .ok ⟨0, 0, none, .empty⟩
    | some (.obj data) => MarketFee.fromCurve data
    | some _ => .error .typeError
  | _ => .error .typeError

/-- `.quantize(FEE_QUANTUM, ROUND_HALF_UP)`; more than 28 digits are refused. -/
def quantizeFee (q : ℚ) : Except Exc ℚ :=
  if (HalfAway.round (q * 10 ^ 5)).natAbs < 10 ^ 28 then .ok (HalfAway.quantize 5 q)
  else .error .arithmeticError

def MarketFee.takerFee (pw : DecPow) (fee : MarketFee) (shares price : ℚ) : Except Exc ℚ :=
  if ¬ (0 < shares ∧ 0 < price ∧ price ≤ 1) then .error .valueError
  else if fee.rate = 0 then .ok 0
  else match pw.pow (price * (1 - price)) fee.exponent with
    | none => .error .arithmeticError
    | some m => quantizeFee (shares * fee.rate * m)

theorem feeNumber_nonneg {data : List (String × Json)} {key : String} {q : ℚ}
    (h : feeNumber data key = some q) : 0 ≤ q := by
  unfold feeNumber at h
  split at h
  · cases h
  · cases h
  · simpa using (Option.filter_eq_some_iff.mp h).2

theorem fromCurve_nonneg {data : List (String × Json)} {fee : MarketFee}
    (h : MarketFee.fromCurve data = .ok fee) : 0 ≤ fee.rate ∧ 0 ≤ fee.exponent := by
  unfold MarketFee.fromCurve at h
  split at h
  · cases h
  · split at h
    · next r e hr he =>
      obtain rfl := Except.ok.inj h
      exact ⟨feeNumber_nonneg hr, feeNumber_nonneg he⟩
    · cases h

/-- Every accepted curve has a coefficient and an exponent that are not negative. -/
theorem fromMarketInfo_nonneg {info : Json} {fee : MarketFee}
    (h : MarketFee.fromMarketInfo info = .ok fee) : 0 ≤ fee.rate ∧ 0 ≤ fee.exponent := by
  unfold MarketFee.fromMarketInfo at h
  split at h
  · split at h
    · obtain rfl := Except.ok.inj h; exact ⟨le_refl _, le_refl _⟩
    · obtain rfl := Except.ok.inj h; exact ⟨le_refl _, le_refl _⟩
    · obtain rfl := Except.ok.inj h; exact ⟨le_refl _, le_refl _⟩
    · exact fromCurve_nonneg h
    · cases h
  · cases h

theorem takerFee_nonneg {pw : DecPow} {fee : MarketFee} {shares price q : ℚ} (hr : 0 ≤ fee.rate)
    (h : fee.takerFee pw shares price = .ok q) : 0 ≤ q := by
  unfold MarketFee.takerFee at h
  split at h
  · cases h
  · next hf =>
    have hf := not_not.mp hf
    split at h
    · obtain rfl := Except.ok.inj h; exact le_refl _
    · split at h
      · cases h
      · next m hm =>
        have hb : 0 ≤ price * (1 - price) := mul_nonneg hf.2.1.le (by linarith [hf.2.2])
        have hm0 := pw.pow_nonneg _ _ _ hb hm
        unfold quantizeFee at h
        split at h
        · obtain rfl := Except.ok.inj h
          exact HalfAway.quantize_nonneg 5 (mul_nonneg (mul_nonneg hf.1.le hr) hm0)
        · cases h

end Polycopy
