import Mathlib.Algebra.Order.BigOperators.Group.List
import Polycopy.Lib.Tally
import Polycopy.Models
import Polycopy.Py.Round

/-!
# The score of a wallet

`scoring/score.py`: gates, five weighted components and a verdict, computed from
a snapshot of the wallet's numbers.  Money enters through ratios and signs
alone, so a wallet that trades the same way with another bankroll scores the
same (`scoreWallet_scale`), and the lists of the snapshot count as collections
(`scoreWallet_perm`).  Floats are exact numbers up to their two rounded places.
-/

namespace Polycopy

/-! ## Gates and thresholds -/

def minSettledMarkets : Nat := 15
def minTrades : Nat := 30
def minAccountAgeDays : Nat := 30
def maxInactiveDays : Nat := 14
def concentrationHardReject : ℚ := 1 / 2

def verdictReviewThreshold : ℚ := 70
def verdictRejectThreshold : ℚ := 50

/-- `WEIGHTS`. -/
def weights : List (String × ℚ) :=
  [("sample_strength", 1 / 4), ("concentration", 1 / 5),
    ("profit_factor", 1 / 5), ("consistency", 1 / 5),
    ("recency", 3 / 20)]

/-- `_SAMPLE_STRENGTH_FULL`. -/
def sampleStrengthFull : ℚ := 50

/-- `_PROFIT_FACTOR_CAP`. -/
def profitFactorCap : ℚ := 5

structure WalletStats where
  realizedPnl : ℚ
  settledMarketCount : Int
  tradeCount : Int
  grossProfit : ℚ
  grossLoss : ℚ
  perMarketPnl : List ℚ
  weeklyPnl : List ℚ
  recent30dPnl : ℚ
  firstTradeAt : Option Time
  lastTradeAt : Option Time
  deriving DecidableEq, Repr

inductive Verdict
  | pendingReview | discovered | scoreRejected | insufficientHistory
  deriving DecidableEq, Repr

structure ScoreResult where
  eligible : Bool
  gateFailures : List String := []
  components : List (String × ℚ) := []
  composite : Option ℚ := none
  verdict : Verdict := .insufficientHistory
  hardRejectReason : Option String := none
  deriving DecidableEq, Repr

inductive GateKind
  | maturity | evidence
  deriving DecidableEq, Repr

/-- `timedelta.days`. -/
def daysBetween (earlier later : Time) : Int := ((later - earlier) / 86400).floor

/-- The gates that come before the one on P&L. -/
def historyGates (stats : WalletStats) (now : Time) : List (GateKind × String) :=
  (if stats.settledMarketCount < minSettledMarkets then
    [(.maturity, s!"settled_markets {stats.settledMarketCount} < {minSettledMarkets}")] else []) ++
  (if stats.tradeCount < minTrades then
    [(.maturity, s!"trades {stats.tradeCount} < {minTrades}")] else []) ++
  (match stats.firstTradeAt with
    | none => [(.maturity, "no trade history")]
    | some first =>
      let ageDays := daysBetween first now
      if ageDays < minAccountAgeDays then
        [(.maturity, s!"account_age_days {ageDays} < {minAccountAgeDays}")] else []) ++
  (match stats.lastTradeAt with
    | none => [(.evidence, "no recent activity")]
    | some last =>
      let idleDays := daysBetween last now
      if maxInactiveDays < idleDays then
        [(.evidence, s!"inactive_days {idleDays} > {maxInactiveDays}")] else [])

def immature (failures : List (GateKind × String)) : Bool := failures.any fun f => f.1 = .maturity

/-- P&L counts as evidence only once the history gates are passed. -/
def checkGates (stats : WalletStats) (now : Time) : List (GateKind × String) :=
  let failures := historyGates stats now
  if ¬ immature failures ∧ stats.realizedPnl ≤ 0 then
    failures ++ [(.evidence, "realized_pnl not positive")]
  else failures

/-! ## Components -/

def clamp (x : ℚ) : ℚ := max 0 (min 100 x)

def sampleStrength (settledMarketCount : Int) : ℚ :=
  clamp (100 * settledMarketCount / sampleStrengthFull)

/-- The component and the largest share of one market in the profit. -/
def concentration (perMarketPnl : List ℚ) : ℚ × ℚ :=
  let positives := perMarketPnl.filter fun p => 0 < p
  let total := positives.sum
  if positives = [] ∨ total ≤ 0 then (0, 1)
  else
    let share := positives.foldr max 0 / total
    (clamp (100 * (1 - share)), share)

def profitFactor (grossProfit grossLoss : ℚ) : ℚ :=
  if grossProfit ≤ 0 then 0
  else if grossLoss = 0 then 100
  else
    let pf := grossProfit / grossLoss
    if pf ≤ 1 then 0 else clamp ((pf - 1) / (profitFactorCap - 1) * 100)

/-- The share of profitable weeks among those with a result. -/
def consistency (weeklyPnl : List ℚ) : ℚ :=
  let active := weeklyPnl.filter fun w => w ≠ 0
  if active = [] then 0
  else clamp (100 * active.countP (fun w => 0 < w) / active.length)

def recency (recent30dPnl lifetimePnl : ℚ) : ℚ :=
  if lifetimePnl ≤ 0 then 0 else clamp (100 * (recent30dPnl / lifetimePnl))

def componentsOf (stats : WalletStats) : List (String × ℚ) :=
  [("sample_strength", roundEven 2 (sampleStrength stats.settledMarketCount)),
    ("concentration", roundEven 2 (concentration stats.perMarketPnl).1),
    ("profit_factor", roundEven 2 (profitFactor stats.grossProfit stats.grossLoss)),
    ("consistency", roundEven 2 (consistency stats.weeklyPnl)),
    ("recency", roundEven 2 (recency stats.recent30dPnl stats.realizedPnl))]

/-- `sum(components[k] * WEIGHTS[k] for k in WEIGHTS)`. -/
def compositeOf (components : List (String × ℚ)) : ℚ :=
  roundEven 2 (weights.map fun kw => (Tally.get kw.1 components).getD 0 * kw.2).sum

/-! ## The verdict -/

def scoreWallet (stats : WalletStats) (now : Time) : ScoreResult :=
  let failures := checkGates stats now
  if failures ≠ [] then
    let messages := failures.map Prod.snd
    if immature failures then
      { eligible := false, gateFailures := messages, verdict := .insufficientHistory }
    else
      { eligible := false, gateFailures := messages, verdict := .scoreRejected }
  else
    let components := componentsOf stats
    let concShare := (concentration stats.perMarketPnl).2
    let composite := compositeOf components
    if concentrationHardReject < concShare then
      { eligible := true, components, composite := some composite, verdict := .scoreRejected,
        hardRejectReason := some
          ("concentration " ++ percentText 1 concShare ++ " > " ++
            percentText 0 concentrationHardReject) }
    else if verdictReviewThreshold ≤ composite then
      { eligible := true, components, composite := some composite, verdict := .pendingReview }
    else if verdictRejectThreshold ≤ composite then
      { eligible := true, components, composite := some composite, verdict := .discovered }
    else
      { eligible := true, components, composite := some composite, verdict := .scoreRejected }

/-! ## Decision weeks -/

/-- The UTC date of a timestamp, in days since the epoch. -/
def dateOf (t : Time) : Int := (t / 86400).floor

/-- The year a date is in, counted from March 1 of the year 0. -/
def yearOf (date : Int) : Int :=
  let z := date + 719468
  let era := z / 146097
  let doe := z - era * 146097
  let yoe := (doe - doe / 1460 + doe / 36524 - doe / 146096) / 365
  let doy := doe - (365 * yoe + yoe / 4 - yoe / 100)
  yoe + era * 400 + if 306 ≤ doy then 1 else 0

/-- January 1 of a year. -/
def newYear (year : Int) : Int :=
  365 * (year - 1) + (year - 1) / 4 - (year - 1) / 100 + (year - 1) / 400 - 719162

/-- The Thursday of a date's week. -/
def thursdayOf (date : Int) : Int := date - (date + 3) % 7 + 3

/-- Year and week of `datetime.isocalendar`: those of the week's Thursday. -/
def isocalendar (t : Time) : Int × Int :=
  let thursday := thursdayOf (dateOf t)
  let year := yearOf thursday
  (year, (thursday - newYear year) / 7 + 1)

example : isocalendar 1789862400 = (2026, 38) ∧ isocalendar 1609459200 = (2020, 53) ∧
    isocalendar (-1) = (1970, 1) := by
  decide +kernel

def bucketWeekly (decided : List (Time × ℚ)) : List ℚ :=
  (Tally.totals (fun d : Time × ℚ => isocalendar d.1) Prod.snd decided).map Prod.snd

def recentPnl (decided : List (Time × ℚ)) (now : Time) (days : Nat) : ℚ :=
  let cutoff := now - days * 86400
  ((decided.filter fun d => cutoff ≤ d.1).map Prod.snd).sum

end Polycopy
