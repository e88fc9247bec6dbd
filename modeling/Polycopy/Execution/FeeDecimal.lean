import Polycopy.Py.Context
import Polycopy.Execution.Fees
import Polycopy.Execution.BookWalk

/-!
# The taker fee as the decimals compute it

`DecMarketFee` is `MarketFee` with its `Decimal`s, and `takerFee` the source's
expression operation by operation under the default context.  Read as numbers the
curve is the one of the exact model (`fromMarketInfo_exact`).  A fill is given a
fee, one that is not negative, exactly when the curve is `Payable` on it
(`taker_fee_total_iff`): a curve of exponent 0 is accepted, and raises on a fill
at price 1 (`taker_fee_raises_at_one`).
-/

namespace Polycopy

open Py

structure DecMarketFee where
  rate : Number
  exponent : Number
  takerOnly : Option Bool
  metadataState : FeeMetadataState
  deriving DecidableEq, Repr

/-- `Decimal(0)`. -/
def decZero : Number := ⟨false, 0, 0⟩

/-- `Decimal(str(data[key]))`, refused when missing, boolean, not a number,
not finite or negative. -/
def decFeeNumber (data : List (String × Json)) (key : String) : Option Number :=
  match Json.field? data key with
  | none | some (.bool _) => none
  | some v => ((v.toDec).bind Dec.finite?).filter (0 ≤ ·.value)

def DecMarketFee.fromCurve (data : List (String × Json)) : Except Exc DecMarketFee :=
  match takerOnlyFlag data with
  | .error e => .error e
  | .ok takerOnly => match decFeeNumber data "r", decFeeNumber data "e" with
    | some rate, some exponent => .ok ⟨rate, exponent, takerOnly, .curve⟩
    | _, _ => .error .valueError

def DecMarketFee.fromMarketInfo (info : Json) : Except Exc DecMarketFee :=
  match info with
  | .obj fields => match Json.field? fields "fd" with
    | none => .ok ⟨decZero, decZero, none, .absent⟩
    | some .null => .ok ⟨decZero, decZero, none, .null⟩
    | some (.obj []) => .ok ⟨decZero, decZero, none, .empty⟩
    | some (.obj data) => DecMarketFee.fromCurve data
    | some _ => .error .typeError
  | _ => .error .typeError

/-- `price * (Decimal(1) - price)`. -/
def curveBase (price : Number) : Except Exc Number := (Number.one.sub price).bind price.mul

/-- `FEE_QUANTUM` is `Decimal("0.00001")`. -/
def feePlaces : Int := -5

/-- The expression of `taker_fee`, left to right. -/
def DecMarketFee.amount (P : PowerCore) (fee : DecMarketFee)
    (shares price : Number) : Except Exc Number :=
  (shares.mul fee.rate).bind fun t => (curveBase price).bind fun b =>
    (b.power P fee.exponent).bind t.mul

def DecMarketFee.takerFee (P : PowerCore) (fee : DecMarketFee)
    (shares price : Dec) : Except Exc Number :=
  match shares.finite?, price.finite? with
  | some s, some p =>
    if ¬ (0 < s.value ∧ 0 < p.value ∧ p.value ≤ 1) then .error .valueError
    else if fee.rate.value = 0 then .ok ⟨false, 0, feePlaces⟩
    else (fee.amount P s p).bind fun a => a.quantize feePlaces
  | _, _ => .error .valueError

/-! ## The curve as numbers -/

def DecMarketFee.exact (fee : DecMarketFee) : MarketFee :=
  ⟨fee.rate.value, fee.exponent.value, fee.takerOnly, fee.metadataState⟩

theorem finite?_value (d : Dec) : d.finite?.map Number.value = d.value := by
  cases d <;> rfl

theorem decFeeNumber_exact (data : List (String × Json)) (key : String) :
    (decFeeNumber data key).map Number.value = feeNumber data key := by
  have hnum : ∀ o : Option Dec, ((o.bind Dec.finite?).filter (0 ≤ ·.value)).map Number.value =
      (o.bind Dec.value).filter (0 ≤ ·) := by
    intro o
    cases o with
    | none => rfl
    | some d =>
      rw [Option.bind_some, Option.bind_some, ← finite?_value d]
      cases d.finite? with
      | none => rfl
      | some a => by_cases h : 0 ≤ a.value <;> simp [Option.filter, h]
  unfold decFeeNumber feeNumber
  cases Json.field? data key with
  | none => rfl
  | some v =>
    cases v with
    | bool b => rfl
    | null | num | str | arr | obj => exact hnum _

theorem fromCurve_exact (data : List (String × Json)) :
    (DecMarketFee.fromCurve data).map DecMarketFee.exact = MarketFee.fromCurve data := by
  unfold DecMarketFee.fromCurve MarketFee.fromCurve
  cases takerOnlyFlag data with
  | error e => rfl
  | ok b =>
    dsimp only
    rw [← decFeeNumber_exact data "r", ← decFeeNumber_exact data "e"]
    cases decFeeNumber data "r" with
    | none => rfl
    | some r =>
      cases decFeeNumber data "e" with
      | none => rfl
      | some e => rfl

/-- The decimal model accepts what the exact one does, and reads the same curve. -/
theorem fromMarketInfo_exact (info : Json) :
    (DecMarketFee.fromMarketInfo info).map DecMarketFee.exact = MarketFee.fromMarketInfo info := by
  have h0 : ∀ state, DecMarketFee.exact ⟨decZero, decZero, none, state⟩ = ⟨0, 0, none, state⟩ := by
    intro state
    unfold DecMarketFee.exact
    rw [Number.value_eq_zero.mpr rfl]
  unfold DecMarketFee.fromMarketInfo MarketFee.fromMarketInfo
  cases info with
  | null | bool | num | str | arr => rfl
  | obj fields =>
    dsimp only
    cases Json.field? fields "fd" with
    | none => exact congrArg Except.ok (h0 _)
    | some v =>
      cases v with
      | null => exact congrArg Except.ok (h0 _)
      | bool | num | str | arr => rfl
      | obj data =>
        cases data with
        | nil => exact congrArg Except.ok (h0 _)
        | cons e rest => exact fromCurve_exact _

theorem decFromMarketInfo_nonneg {info : Json} {fee : DecMarketFee}
    (h : DecMarketFee.fromMarketInfo info = .ok fee) :
    0 ≤ fee.rate.value ∧ 0 ≤ fee.exponent.value := by
  have hx := fromMarketInfo_exact info
  rw [h] at hx
  exact fromMarketInfo_nonneg hx.symm

/-! ## When there is a fee -/

/-- `price * (Decimal(1) - price)` is zero: at price 1, and where the product underflows. -/
def BaseVanishes (price : Number) : Prop := ∃ b, curveBase price = .ok b ∧ b.value = 0

/-- The product of the shares and the coefficient stays in the context; a zero of
the curve does not meet exponent 0; and the amount is below `10 ^ 28` units of the
fifth place, the last half unit excluded. -/
structure DecMarketFee.Curved (P : PowerCore) (fee : DecMarketFee)
    (shares price : Number) : Prop where
  product : 2 * (shares.value * fee.rate.value) < Dec.overflowMid
  power : ¬ (BaseVanishes price ∧ fee.exponent.value = 0)
  size : ∀ t b m, shares.mul fee.rate = .ok t → curveBase price = .ok b →
    b.power P fee.exponent = .ok m →
    2 * (t.value * m.value) < Dec.scale (2 * 10 ^ 28 - 1) feePlaces

def DecMarketFee.Payable (P : PowerCore) (fee : DecMarketFee) (shares price : Number) : Prop :=
  fee.rate.value = 0 ∨ fee.Curved P shares price

theorem curveBase_unit {price : Number} (h0 : 0 ≤ price.value) (h1 : price.value ≤ 1) :
    ∃ b, curveBase price = .ok b ∧ 0 ≤ b.value ∧ b.value ≤ 1 := by
  have hone : Number.one.value = 1 := by decide +kernel
  obtain ⟨d, hd, hdr, hd1⟩ :=
    Number.sub_unit (a := Number.one) (b := price) (by rw [hone]; exact h1) (by rw [hone]; linarith)
  obtain ⟨b, hb, hbr, hb1⟩ := Number.mul_unit h0 hdr.nonneg (mul_le_one₀ h1 hdr.nonneg hd1)
  refine ⟨b, ?_, hbr.nonneg, hb1⟩
  unfold curveBase
  rw [hd]
  exact hb

section
variable {P : PowerCore} {fee : DecMarketFee} {shares price : Number} (hr : 0 ≤ fee.rate.value)
  (he : 0 ≤ fee.exponent.value) (hs : 0 < shares.value)
  (hp : 0 < price.value) (hp1 : price.value ≤ 1)
include hs hp hp1

theorem takerFee_valid : fee.takerFee P shares.toDec price.toDec =
    if fee.rate.value = 0 then .ok ⟨false, 0, feePlaces⟩
    else (fee.amount P shares price).bind fun a => a.quantize feePlaces := by
  unfold DecMarketFee.takerFee
  show (if ¬ (0 < shares.value ∧ 0 < price.value ∧ price.value ≤ 1) then _ else _) = _
  rw [if_neg (not_not.mpr ⟨hs, hp, hp1⟩)]

include hr he

/-- The amount is computed up to the quantization when the first two conditions hold. -/
theorem amount_curved (hprod : 2 * (shares.value * fee.rate.value) < Dec.overflowMid)
    (hpow : ¬ (BaseVanishes price ∧ fee.exponent.value = 0)) :
    ∃ t b m a, shares.mul fee.rate = .ok t ∧ curveBase price = .ok b ∧
      b.power P fee.exponent = .ok m ∧
      fee.amount P shares price = .ok a ∧ Number.Rounding (t.value * m.value) a := by
  obtain ⟨t, htr, ht⟩ := Number.mul_spec hs.le hr
  rw [if_pos hprod] at ht
  obtain ⟨b, hb, hb0, hb1⟩ := curveBase_unit hp.le hp1
  obtain ⟨m, hm, hm0, hm1⟩ := Number.power_unit P hb0 hb1 he fun h =>
    hpow ⟨⟨b, hb, Number.value_eq_zero.mpr h.1⟩, Number.value_eq_zero.mpr h.2⟩
  obtain ⟨a, ha, har⟩ := Number.mul_shrink htr hprod hm0 hm1
  refine ⟨t, b, m, a, ht, hb, hm, ?_, har⟩
  unfold DecMarketFee.amount
  rw [ht, hb]
  show (b.power P fee.exponent).bind t.mul = _
  rw [hm]
  exact ha

omit he hp hp1 in
/-- An amount is computed only when the first two conditions hold. -/
theorem curved_of_amount {a : Number} (h : fee.amount P shares price = .ok a) :
    2 * (shares.value * fee.rate.value) < Dec.overflowMid ∧
    ¬ (BaseVanishes price ∧ fee.exponent.value = 0) := by
  obtain ⟨t, ht, h⟩ := bind_ok h
  obtain ⟨b, hb, h⟩ := bind_ok h
  obtain ⟨m, hm, h⟩ := bind_ok h
  constructor
  · by_contra hprod
    obtain ⟨t', htr, ht'⟩ := Number.mul_spec hs.le hr
    rw [if_neg hprod, ht] at ht'
    cases ht'
  · rintro ⟨⟨b', hb', hb0⟩, he0⟩
    obtain rfl : b = b' := Except.ok.inj (hb.symm.trans hb')
    rw [Number.power_zero_zero P (Number.value_eq_zero.mp hb0) (Number.value_eq_zero.mp he0)] at hm
    cases hm

theorem payable_iff : (∃ d : Number, fee.takerFee P shares.toDec price.toDec = .ok d ∧ 0 ≤ d.value) ↔
    fee.Payable P shares price := by
  rw [takerFee_valid hs hp hp1]
  by_cases h0 : fee.rate.value = 0
  · rw [if_pos h0]
    exact iff_of_true ⟨_, rfl, by decide +kernel⟩ (Or.inl h0)
  · rw [if_neg h0]
    constructor
    · rintro ⟨d, hd, -⟩
      obtain ⟨a, ha, hq⟩ := bind_ok hd
      obtain ⟨hprod, hpow⟩ := curved_of_amount hr hs ha
      refine Or.inr ⟨hprod, hpow, ?_⟩
      obtain ⟨t, b, m, a', ht, hb, hm, ha', har⟩ :=
      amount_curved (P := P) hr he hs hp hp1 hprod hpow
      obtain rfl : a = a' := Except.ok.inj (ha.symm.trans ha')
      intro t₂ b₂ m₂ ht₂ hb₂ hm₂
      obtain rfl : t = t₂ := Except.ok.inj (ht.symm.trans ht₂)
      obtain rfl : b = b₂ := Except.ok.inj (hb.symm.trans hb₂)
      obtain rfl : m = m₂ := Except.ok.inj (hm.symm.trans hm₂)
      exact (har.lt_iff feePlaces (by decide)).mp
        ((Number.quantize_ok har.small har.sign).mp ⟨d, hq⟩)
    · intro h
      obtain ⟨hprod, hpow, hsize⟩ := h.resolve_left h0
      obtain ⟨t, b, m, a, ht, hb, hm, ha, har⟩ := amount_curved (P := P) hr he hs hp hp1 hprod hpow
      obtain ⟨d, hd⟩ := (Number.quantize_ok har.small har.sign).mpr
        ((har.lt_iff feePlaces (by decide)).mpr (hsize t b m ht hb hm))
      refine ⟨d, ?_, Number.quantize_nonneg har.sign hd⟩
      rw [ha]
      exact hd

end

/-- **The fee is total where it is payable.**  For every accepted market-info and every
fill of positive size at a price in (0, 1], there is a fee, and it is not negative,
exactly when the curve is payable there. -/
theorem taker_fee_total_iff (P : PowerCore) {info : Json} {fee : DecMarketFee}
    (h : DecMarketFee.fromMarketInfo info = .ok fee) {shares price : Number} (hs : 0 < shares.value)
    (hp : 0 < price.value) (hp1 : price.value ≤ 1) :
    (∃ d : Number, fee.takerFee P shares.toDec price.toDec = .ok d ∧ 0 ≤ d.value) ↔
    fee.Payable P shares price :=
  payable_iff (decFromMarketInfo_nonneg h).1 (decFromMarketInfo_nonneg h).2 hs hp hp1

/-- `{"fd": {"r": r, "e": e}}`. -/
def curveInfo (r e : String) : Json := .obj [("fd", .obj [("r", .str r), ("e", .str e)])]

/-- Twenty shares at 0.5 under the curve 0.05, 1: the fee is 0.25000. -/
theorem taker_fee_total_iff_half :
    DecMarketFee.takerFee wholePower ⟨⟨false, 5, -2⟩, ⟨false, 1, 0⟩, none, .curve⟩
        (.fin false 20 0) (.fin false 5 (-1)) =
        .ok ⟨false, 25000, -5⟩ ∧
      DecMarketFee.Payable wholePower ⟨⟨false, 5, -2⟩, ⟨false, 1, 0⟩, none, .curve⟩
        ⟨false, 20, 0⟩ ⟨false, 5, -1⟩ := by
  have hfee : DecMarketFee.takerFee wholePower ⟨⟨false, 5, -2⟩, ⟨false, 1, 0⟩,
      none, .curve⟩ (.fin false 20 0)
      (.fin false 5 (-1)) = .ok ⟨false, 25000, -5⟩ := by decide +kernel
  have hinfo : DecMarketFee.fromMarketInfo (curveInfo "0.05" "1") =
      .ok ⟨⟨false, 5, -2⟩, ⟨false, 1, 0⟩, none, .curve⟩ := by decide +kernel
  have hiff := @taker_fee_total_iff wholePower _ _ hinfo ⟨false, 20, 0⟩
    ⟨false, 5, -1⟩ (by decide +kernel)
    (by decide +kernel) (by decide +kernel)
  exact ⟨hfee, hiff.mp ⟨_, hfee, by decide +kernel⟩⟩

/-- Ten shares offered at 1 fill a ten-dollar BUY at price 1.  The curve 0.05, 0 is
accepted, and its fee on that fill raises, whatever the library's power does elsewhere. -/
theorem taker_fee_raises_at_one :
    walkBook .buy 10 [] [⟨.fin false 1 0, .fin false 10 0⟩] none =
      .ok (.took ⟨.filled, 10, 1, 10, 1⟩) ∧
      ∃ fee : DecMarketFee, DecMarketFee.fromMarketInfo (curveInfo "0.05" "0") = .ok fee ∧
        ∀ P, fee.takerFee P (.fin false 10 0) (.fin false 1 0) = .error .arithmeticError := by
  refine ⟨by decide +kernel, ⟨⟨false, 5, -2⟩, ⟨false, 0, 0⟩, none, .curve⟩, by decide +kernel, ?_⟩
  intro P
  have hb : curveBase ⟨false, 1, 0⟩ = .ok ⟨false, 0, 0⟩ := by decide +kernel
  have ht : Number.mul ⟨false, 10, 0⟩ ⟨false, 5, -2⟩ = .ok ⟨false, 50, -2⟩ := by decide +kernel
  have hamount : DecMarketFee.amount P ⟨⟨false, 5, -2⟩, ⟨false, 0, 0⟩, none, .curve⟩
      ⟨false, 10, 0⟩ ⟨false, 1, 0⟩ =
      .error .arithmeticError := by
    unfold DecMarketFee.amount
    rw [ht, hb]
    rfl
  refine (@takerFee_valid P _ ⟨false, 10, 0⟩ ⟨false, 1, 0⟩ (by decide +kernel) (by decide +kernel)
    (by decide +kernel)).trans ?_
  rw [if_neg (by decide +kernel), hamount]
  rfl

end Polycopy
