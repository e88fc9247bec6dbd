import Polycopy.Models
import Mathlib.Data.List.Sort
import Mathlib.Tactic.Linarith
import Mathlib.Tactic.Positivity
import Mathlib.Tactic.FieldSimp
import Mathlib.Tactic.Ring

/-!
# `walk_book`: what a market order would have got

The valid levels of the walked side, best price first, are taken one by one
until the notional or the share cap runs out.  `WalkInv` is what the loop keeps:
the notional spent and the notional left add up to the request, and the shares
taken and the cap left add up to the cap.
-/

namespace Polycopy

/-- A level `_ok` lets through. -/
structure Level where
  price : ℚ
  size : ℚ
  price_pos : 0 < price
  price_le : price ≤ 1
  size_pos : 0 < size
  deriving DecidableEq

/-- `_ok`: finite, priced in (0, 1], of positive size. -/
def BookLevel.ok? (lv : BookLevel) : Option Level :=
  match lv.price.value, lv.size.value with
  | some p, some s => if h : 0 < p ∧ p ≤ 1 ∧ 0 < s then some ⟨p, s, h.1, h.2.1, h.2.2⟩ else none
  | _, _ => none

/-- A fill: `status` is `filled` or `partialFill`. -/
structure Fill where
  status : OrderStatus
  filledSize : ℚ
  fillPrice : ℚ
  depthAvailable : ℚ
  levelsConsumed : Nat
  deriving DecidableEq, Repr

/-- `FillResult`; a miss takes nothing, has no price and consumes no level. -/
inductive FillResult
  | missed (depthAvailable : ℚ)
  | took (fill : Fill)
  deriving DecidableEq, Repr

/-- The variables of the loop. -/
structure Walk where
  remainingUsd : ℚ
  remainingShares : Option ℚ
  shares : ℚ
  notional : ℚ
  used : Nat

/-- Either budget is spent. -/
def Walk.done (w : Walk) : Bool :=
  w.remainingUsd ≤ 0 || match w.remainingShares with
    | some r => r ≤ 0
    | none => false

def Walk.affordable (w : Walk) (lv : Level) : ℚ := w.remainingUsd / lv.price

/-- Limited by the level's depth, the notional left and the share cap. -/
def Walk.take (w : Walk) (lv : Level) : ℚ :=
  let t := min lv.size (w.affordable lv)
  match w.remainingShares with
  | some r => min t r
  | none => t

/-- One turn of the loop; the money running out at this level leaves exactly zero. -/
def Walk.step (w : Walk) (lv : Level) : Walk where
  remainingUsd := if w.take lv = w.affordable lv then 0 else w.remainingUsd - w.take lv * lv.price
  remainingShares := w.remainingShares.map (· - w.take lv)
  shares := w.shares + w.take lv
  notional := w.notional + w.take lv * lv.price
  used := w.used + 1

def walkLevels : List Level → Walk → Walk
  | [], w => w
  | lv :: rest, w =>
    if w.done then w
    else if w.take lv = w.affordable lv then w.step lv
    else walkLevels rest (w.step lv)

def sortLevels (side : Side) (levels : List Level) : List Level :=
  if side = .sell then levels.insertionSort fun a b => b.price ≤ a.price
  else levels.insertionSort fun a b => a.price ≤ b.price

/-- The valid levels of the side walked (asks for a BUY, bids for a SELL), best price first. -/
def walkedLevels (side : Side) (bids asks : List BookLevel) : List Level :=
  sortLevels side ((if side = .buy then asks else bids).filterMap BookLevel.ok?)

def depth (levels : List Level) : ℚ := (levels.map Level.size).sum

def Walk.start (sizeUsd : ℚ) (maxShares : Option ℚ) : Walk := ⟨sizeUsd, maxShares, 0, 0, 0⟩

def walkBook (side : Side) (sizeUsd : ℚ) (bids asks : List BookLevel) (maxShares : Option ℚ) :
    Except Py.Exc FillResult :=
  if sizeUsd ≤ 0 then .error .valueError
  else if side ≠ .buy ∧ side ≠ .sell then .error .valueError
  else
    let levels := walkedLevels side bids asks
    if levels = [] ∨ depth levels ≤ 0 then .ok (.missed 0)
    else
      let w := walkLevels levels (Walk.start sizeUsd maxShares)
      if w.shares ≤ 0 then .ok (.missed (depth levels))
      else .ok (.took {
        status := if w.remainingUsd ≤ 0 then .filled else .partialFill
        filledSize := w.shares
        fillPrice := w.notional / w.shares
        depthAvailable := depth levels
        levelsConsumed := w.used })

/-! ## What the loop keeps -/

structure WalkInv (sizeUsd : ℚ) (maxShares : Option ℚ) (w : Walk) : Prop where
  spent : w.notional + w.remainingUsd = sizeUsd
  left : 0 ≤ w.remainingUsd
  capLeft : w.remainingShares = maxShares.map (· - w.shares)
  capNonneg : ∀ r, w.remainingShares = some r → 0 ≤ r
  shares_nonneg : 0 ≤ w.shares
  notional_le : w.notional ≤ w.shares
  notional_nonneg : 0 ≤ w.notional
  notional_pos : 0 < w.shares → 0 < w.notional

theorem walkInv_start (sizeUsd : ℚ) (maxShares : Option ℚ) (h : 0 ≤ sizeUsd)
    (hm : ∀ r, maxShares = some r → 0 ≤ r) :
    WalkInv sizeUsd maxShares (Walk.start sizeUsd maxShares) := by
  refine ⟨by simp [Walk.start], h, ?_, hm, le_refl _, le_refl _, le_refl _,
    fun h => absurd h (lt_irrefl _)⟩
  cases maxShares <;> simp [Walk.start]

theorem Walk.take_le_affordable (w : Walk) (lv : Level) : w.take lv ≤ w.affordable lv := by
  unfold Walk.take
  cases w.remainingShares with
  | none => exact min_le_right _ _
  | some r => exact (min_le_left _ _).trans (min_le_right _ _)

theorem Walk.take_le_cap (w : Walk) (lv : Level) {r : ℚ} (h : w.remainingShares = some r) :
    w.take lv ≤ r := by
  unfold Walk.take
  rw [h]
  exact min_le_right _ _

theorem Walk.take_pos (w : Walk) (lv : Level) (h : ¬ w.done = true) : 0 < w.take lv := by
  unfold Walk.done at h
  simp only [Bool.or_eq_true, decide_eq_true_eq, not_or, not_le] at h
  have ha : 0 < w.affordable lv := div_pos h.1 lv.price_pos
  have ht : 0 < min lv.size (w.affordable lv) := lt_min lv.size_pos ha
  unfold Walk.take
  cases hs : w.remainingShares with
  | none => exact ht
  | some r =>
    rw [hs] at h
    exact lt_min ht (by simpa using h.2)

theorem Walk.affordable_cost (w : Walk) (lv : Level) :
    w.affordable lv * lv.price = w.remainingUsd :=
  div_mul_cancel₀ _ lv.price_pos.ne'

/-- In exact arithmetic the two ways of leaving the level agree. -/
theorem Walk.step_remainingUsd (w : Walk) (lv : Level) :
    (w.step lv).remainingUsd = w.remainingUsd - w.take lv * lv.price := by
  unfold Walk.step
  dsimp only
  split
  · next h => rw [h, w.affordable_cost lv, sub_self]
  · rfl

theorem walkInv_step {sizeUsd : ℚ} {maxShares : Option ℚ} {w : Walk}
    (h : WalkInv sizeUsd maxShares w) (lv : Level)
    (hd : ¬ w.done = true) : WalkInv sizeUsd maxShares (w.step lv) := by
  have htake := w.take_pos lv hd
  have hcost : w.take lv * lv.price ≤ w.remainingUsd := by
    rw [← w.affordable_cost lv]
    exact mul_le_mul_of_nonneg_right (w.take_le_affordable lv) lv.price_pos.le
  have hpos : 0 < w.take lv * lv.price := mul_pos htake lv.price_pos
  have hle : w.take lv * lv.price ≤ w.take lv := mul_le_of_le_one_right htake.le lv.price_le
  refine ⟨?_, ?_, ?_, ?_, ?_, ?_, ?_, ?_⟩
  · rw [w.step_remainingUsd lv]
    have := h.spent
    show w.notional + w.take lv * lv.price + (w.remainingUsd - w.take lv * lv.price) = sizeUsd
    linarith
  · rw [w.step_remainingUsd lv]; linarith
  · show w.remainingShares.map (· - w.take lv) = maxShares.map (· - (w.shares + w.take lv))
    rw [h.capLeft, Option.map_map]
    congr 1
    funext r
    simp only [Function.comp_apply]
    ring
  · intro r hr
    obtain ⟨r₀, h0, rfl⟩ := Option.map_eq_some_iff.mp hr
    exact sub_nonneg.mpr (w.take_le_cap lv h0)
  · exact add_nonneg h.shares_nonneg htake.le
  · exact add_le_add h.notional_le hle
  · exact add_nonneg h.notional_nonneg hpos.le
  · intro _
    exact add_pos_of_nonneg_of_pos h.notional_nonneg hpos

theorem walkInv_walkLevels {sizeUsd : ℚ} {maxShares : Option ℚ} :
    ∀ (levels : List Level) (w : Walk), WalkInv sizeUsd maxShares w →
      WalkInv sizeUsd maxShares (walkLevels levels w) := by
  intro levels
  induction levels with
  | nil => intro w h; exact h
  | cons lv rest ih =>
    intro w h
    unfold walkLevels
    split
    · exact h
    · next hd =>
      split
      · exact walkInv_step h lv hd
      · exact ih _ (walkInv_step h lv hd)

/-- What every fill is: a positive number of shares within the cap, at a price in
(0, 1], for at most the request, and `filled` exactly when the request was met. -/
structure FillOk (sizeUsd : ℚ) (maxShares : Option ℚ) (f : Fill) : Prop where
  size_pos : 0 < f.filledSize
  price_pos : 0 < f.fillPrice
  price_le : f.fillPrice ≤ 1
  notional_le : f.filledSize * f.fillPrice ≤ sizeUsd
  within_cap : ∀ r, maxShares = some r → f.filledSize ≤ r
  status : f.status = .filled ∨ f.status = .partialFill

theorem walkBook_took {side : Side} {sizeUsd : ℚ}
    {bids asks : List BookLevel} {maxShares : Option ℚ} {f : Fill}
    (hm : ∀ r, maxShares = some r → 0 ≤ r)
    (h : walkBook side sizeUsd bids asks maxShares = .ok (.took f)) :
    FillOk sizeUsd maxShares f ∧ (side = .buy ∨ side = .sell) := by
  unfold walkBook at h
  split at h
  · cases h
  · next hs =>
    split at h
    · cases h
    · next hside =>
      dsimp only at h
      split at h
      · cases h
      · split at h
        · cases h
        · next hsh =>
          rw [not_le] at hs hsh
          obtain rfl : _ = f := by simpa using h
          have inv := walkInv_walkLevels (walkedLevels side bids asks) _
            (walkInv_start sizeUsd maxShares hs.le hm)
          refine ⟨⟨hsh, div_pos (inv.notional_pos hsh) hsh,
            (div_le_one hsh).mpr inv.notional_le, ?_, ?_, ?_⟩, ?_⟩
          · dsimp only
            rw [mul_div_cancel₀ _ hsh.ne']
            have h1 := inv.spent
            have h2 := inv.left
            linarith
          · rintro r rfl
            have := inv.capNonneg _ inv.capLeft
            dsimp only
            linarith
          · dsimp only
            split
            · exact Or.inl rfl
            · exact Or.inr rfl
          · by_contra hne
            rw [not_or] at hne
            exact hside hne

end Polycopy
