import Polycopy.Models
import Mathlib.Tactic.Ring

/-!
# Cash-flow P&L of one market

`accounting/pnl.py`: every leg is a signed cash flow, fees are money out on both
sides, and at settlement each share held of the winning outcome pays 1.
-/

namespace Polycopy

structure TradeLeg where
  marketKey : String
  outcome : String
  side : Side
  size : ℚ
  price : ℚ
  fee : ℚ
  deriving DecidableEq, Repr

structure MarketPosition where
  shares : ℚ
  cashFlow : ℚ
  deriving DecidableEq, Repr

structure MarketAccounting where
  marketKey : String
  resolved : Bool
  winningOutcome : Option String
  realizedPnl : Option ℚ
  payout : ℚ
  positions : List (String × MarketPosition)
  tradeCount : Nat
  deriving DecidableEq, Repr

/-- Shares in, or out of any side but BUY. -/
def TradeLeg.signed (leg : TradeLeg) : ℚ := if leg.side = .buy then leg.size else -leg.size

def TradeLeg.gross (leg : TradeLeg) : ℚ :=
  if leg.side = .buy then -leg.size * leg.price else leg.size * leg.price

/-- `positions.setdefault(outcome, MarketPosition())`. -/
def legPosition (positions : List (String × MarketPosition)) (outcome : String) : MarketPosition :=
  ((Keyed.find Prod.fst outcome positions).map Prod.snd).getD ⟨0, 0⟩

/-- One turn of the loop. -/
def addLeg (positions : List (String × MarketPosition)) (leg : TradeLeg) :
    List (String × MarketPosition) :=
  let pos := legPosition positions leg.outcome
  Keyed.put Prod.fst (leg.outcome,
    ⟨pos.shares + leg.signed, pos.cashFlow + (leg.gross - leg.fee)⟩) positions

def legPositions (legs : List TradeLeg) : List (String × MarketPosition) := legs.foldl addLeg []

/-- Nothing for a short. -/
def winningPayout (positions : List (String × MarketPosition)) (winningOutcome : String) : ℚ :=
  match Keyed.find Prod.fst winningOutcome positions with
  | some (_, pos) => if 0 < pos.shares then pos.shares else 0
  | none => 0

def accountMarket (marketKey : String) (legs : List TradeLeg)
    (winningOutcome : Option String) : MarketAccounting :=
  let positions := legPositions legs
  match winningOutcome with
  | none => ⟨marketKey, false, none, none, 0, positions, legs.length⟩
  | some winner =>
    let payout := winningPayout positions winner
    let totalCash := (positions.map fun kv => kv.2.cashFlow).sum
    ⟨marketKey, true, some winner, some (totalCash + payout), payout, positions, legs.length⟩

/-! ## What a leg changes -/

theorem legPosition_addLeg (positions : List (String × MarketPosition))
    (leg : TradeLeg) (outcome : String) :
    legPosition (addLeg positions leg) outcome =
      if leg.outcome = outcome then
        ⟨(legPosition positions outcome).shares + leg.signed,
          (legPosition positions outcome).cashFlow + (leg.gross - leg.fee)⟩
      else legPosition positions outcome := by
  unfold legPosition addLeg
  rw [Keyed.find_put]
  split
  · next h => subst h; rfl
  · rfl

theorem cash_addLeg (positions : List (String × MarketPosition)) (leg : TradeLeg) :
    ((addLeg positions leg).map fun kv => kv.2.cashFlow).sum =
      (positions.map fun kv => kv.2.cashFlow).sum + (leg.gross - leg.fee) := by
  unfold addLeg
  rw [Keyed.sum_put Prod.fst fun kv : String × MarketPosition => kv.2.cashFlow]
  unfold legPosition
  cases Keyed.find Prod.fst leg.outcome positions with
  | none =>
    simp only [Option.map_none, Option.getD_none]
    ring
  | some kv =>
    simp only [Option.map_some, Option.getD_some]
    ring

/-- The payout of a market never short of its winner. -/
theorem winningPayout_eq {positions : List (String × MarketPosition)} {winner : String}
    (h : 0 ≤ (legPosition positions winner).shares) :
    winningPayout positions winner = (legPosition positions winner).shares := by
  unfold legPosition at *
  unfold winningPayout
  cases hw : Keyed.find Prod.fst winner positions with
  | none => rfl
  | some kv =>
    rw [hw] at h
    obtain ⟨o, pos⟩ := kv
    dsimp only at h ⊢
    split
    · rfl
    · next hpos => exact (le_antisymm (not_lt.mp hpos) h).symm

end Polycopy
