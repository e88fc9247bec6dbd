import Mathlib.Algebra.BigOperators.Ring.List
import Mathlib.Algebra.Order.Ring.Rat
import Mathlib.Tactic.FieldSimp
import Polycopy.Scoring.Score

/-!
# Bankroll size is not skill

Every amount of a snapshot multiplied by one positive factor: each gate and each
component reads signs and ratios of amounts, and these stay.
-/

namespace Polycopy

/-- The same trading with `c` times the money. -/
def WalletStats.scale (c : ℚ) (stats : WalletStats) : WalletStats :=
  { stats with
    realizedPnl := c * stats.realizedPnl
    grossProfit := c * stats.grossProfit
    grossLoss := c * stats.grossLoss
    perMarketPnl := stats.perMarketPnl.map (c * ·)
    weeklyPnl := stats.weeklyPnl.map (c * ·)
    recent30dPnl := c * stats.recent30dPnl }

/-! ## Signs and ratios -/

section
variable {c : ℚ} (hc : 0 < c)
include hc

theorem scaled_nonpos (q : ℚ) : c * q ≤ 0 ↔ q ≤ 0 := by
  rw [← not_lt, ← not_lt, mul_pos_iff_of_pos_left hc]

theorem scaled_ratio (p q : ℚ) : c * p / (c * q) = p / q := mul_div_mul_left p q hc.ne'

theorem scaled_positives (l : List ℚ) :
    (l.map (c * ·)).filter (fun p => 0 < p) = (l.filter fun p => 0 < p).map (c * ·) := by
  rw [List.filter_map]
  refine congrArg _ (List.filter_congr fun p _ => ?_)
  exact decide_eq_decide.mpr (mul_pos_iff_of_pos_left hc)

theorem scaled_active (l : List ℚ) :
    (l.map (c * ·)).filter (fun w => w ≠ 0) = (l.filter fun w => w ≠ 0).map (c * ·) := by
  rw [List.filter_map]
  refine congrArg _ (List.filter_congr fun w _ => ?_)
  exact decide_eq_decide.mpr (mul_ne_zero_iff_left hc.ne')

theorem scaled_max (l : List ℚ) : (l.map (c * ·)).foldr max 0 = c * l.foldr max 0 := by
  induction l with
  | nil => exact (mul_zero c).symm
  | cons p l ih =>
    rw [List.map_cons, List.foldr_cons, List.foldr_cons, ih, ← mul_max_of_nonneg _ _ hc.le]

/-! ## Gates and components -/

theorem checkGates_scale (stats : WalletStats) (now : Time) :
    checkGates (stats.scale c) now = checkGates stats now := by
  have hhistory : historyGates (stats.scale c) now = historyGates stats now := rfl
  have hpnl : (stats.scale c).realizedPnl ≤ 0 ↔ stats.realizedPnl ≤ 0 :=
    scaled_nonpos hc stats.realizedPnl
  unfold checkGates
  dsimp only
  rw [hhistory]
  simp only [hpnl]

theorem concentration_scale (perMarketPnl : List ℚ) :
    concentration (perMarketPnl.map (c * ·)) = concentration perMarketPnl := by
  unfold concentration
  dsimp only
  rw [scaled_positives hc, scaled_max hc, List.sum_map_mul_left, List.map_id', scaled_ratio hc]
  simp only [List.map_eq_nil_iff, scaled_nonpos hc]

theorem profitFactor_scale (grossProfit grossLoss : ℚ) :
    profitFactor (c * grossProfit) (c * grossLoss) = profitFactor grossProfit grossLoss := by
  unfold profitFactor
  dsimp only
  rw [scaled_ratio hc]
  simp only [scaled_nonpos hc, mul_eq_zero, hc.ne', false_or]

theorem consistency_scale (weeklyPnl : List ℚ) :
    consistency (weeklyPnl.map (c * ·)) = consistency weeklyPnl := by
  have hwinners : ∀ l : List ℚ, (l.map (c * ·)).countP (fun w => 0 < w) =
      l.countP fun w => 0 < w := by
    intro l
    rw [List.countP_map]
    refine List.countP_congr fun w _ => ?_
    simp [mul_pos_iff_of_pos_left hc]
  unfold consistency
  dsimp only
  rw [scaled_active hc, hwinners, List.length_map]
  simp only [List.map_eq_nil_iff]

theorem recency_scale (recent30dPnl lifetimePnl : ℚ) :
    recency (c * recent30dPnl) (c * lifetimePnl) = recency recent30dPnl lifetimePnl := by
  unfold recency
  rw [scaled_ratio hc]
  simp only [scaled_nonpos hc]

theorem componentsOf_scale (stats : WalletStats) :
    componentsOf (stats.scale c) = componentsOf stats := by
  unfold componentsOf WalletStats.scale
  dsimp only
  rw [concentration_scale hc, profitFactor_scale hc, consistency_scale hc, recency_scale hc]

end

/-- **Bankroll size does not enter the score**: not the gates, a component, the
hard reject or the verdict. -/
theorem scoreWallet_scale {c : ℚ} (hc : 0 < c) (stats : WalletStats) (now : Time) :
    scoreWallet (stats.scale c) now = scoreWallet stats now := by
  have hshare : concentration (stats.scale c).perMarketPnl = concentration stats.perMarketPnl :=
    concentration_scale hc stats.perMarketPnl
  unfold scoreWallet
  dsimp only
  rw [checkGates_scale hc, componentsOf_scale hc, hshare]

/-- A wallet that passes every gate, and the same with a thousand times the money. -/
def steadyWallet : WalletStats :=
  ⟨100, 50, 120, 150, 50, List.replicate 15 10 ++ List.replicate 5 (-10),
    [60, -10, 50], 50, some 0, some 7776000⟩

theorem scoreWallet_scale_steady :
    (0 : ℚ) < 1000 ∧ scoreWallet (steadyWallet.scale 1000) 7776000 =
      scoreWallet steadyWallet 7776000 ∧
      (scoreWallet steadyWallet 7776000).eligible = true :=
  ⟨by norm_num, scoreWallet_scale (by norm_num) steadyWallet 7776000, by decide +kernel⟩

end Polycopy
