import Polycopy.Py.Json
import Polycopy.Lib.Keyed

/-!
# The tables

Rows as `models.py` declares them, without the columns that nothing modelled
reads.  A table is the list of its rows, oldest first.  Money columns hold the
exact number (what six-decimal columns do to it is the subject of
`Books.Persisted`), datetimes are seconds since the epoch.
-/

namespace Polycopy

abbrev Time := ℚ

/-! ## Wallets and markets -/

inductive ApprovalState
  | discovered | pendingReview | approved | rejected | disabled
  deriving DecidableEq, Repr

structure Wallet where
  id : Nat
  address : String
  approvalState : ApprovalState
  approvedAt : Option Time
  deriving DecidableEq, Repr

inductive QueueState
  | pending | approved | rejected | disabled | withdrawn
  deriving DecidableEq, Repr

structure ApprovalQueueEntry where
  walletId : Nat
  state : QueueState
  reviewer : Option String
  decidedAt : Option Time
  deriving DecidableEq, Repr

structure Market where
  id : Nat
  conditionId : String
  question : String
  slug : Py.Json
  clobTokenIds : Option (List (String × String))
  outcomes : Py.Json
  active : Bool
  closed : Bool
  resolvedOutcome : Option String
  settlementLastCheckedAt : Option Time
  settlementNextCheckAt : Option Time
  settlementAttemptCount : Nat

/-- One row a market, enforced by `uq_settlements_market`. -/
structure Settlement where
  marketId : Nat
  winningOutcome : String
  deriving DecidableEq, Repr

/-! ## Trades and signals -/

inductive Side
  | buy | sell
  | other (text : String)
  deriving DecidableEq, Repr

def Side.ofText (text : String) : Side :=
  if text = "BUY" then .buy else if text = "SELL" then .sell else .other text

structure Trade where
  id : Nat
  polymarketTradeId : String
  marketId : Nat
  walletId : Nat
  assetId : Option String
  side : Side
  outcome : String
  size : ℚ
  price : ℚ
  tradedAt : Time
  ingestedAt : Time
  deriving DecidableEq, Repr

inductive SignalStatus
  | pending | executed | skipped
  deriving DecidableEq, Repr

structure Signal where
  id : Nat
  walletId : Nat
  marketId : Nat
  sourceTradeId : String
  assetId : Option String
  side : Side
  outcome : String
  sourcePrice : ℚ
  status : SignalStatus
  killSwitchDeferrals : Nat
  t0TradedAt : Time
  t1DetectedAt : Time
  deriving DecidableEq, Repr

/-! ## Orders and positions -/

inductive MissReason
  | staleSignal | walletNotApproved | marketClosed | noTokenForOutcome | noPositionToSell
  | exposureCap | bankrollStopLoss | bankrollInsufficient | noBookDepth | priceZone
  deriving DecidableEq, Repr

def MissReason.text : MissReason → String
  | .staleSignal => "stale_signal"
  | .walletNotApproved => "wallet_not_approved"
  | .marketClosed => "market_closed"
  | .noTokenForOutcome => "no_token_for_outcome"
  | .noPositionToSell => "no_position_to_sell"
  | .exposureCap => "exposure_cap"
  | .bankrollStopLoss => "bankroll_stop_loss"
  | .bankrollInsufficient => "bankroll_insufficient"
  | .noBookDepth => "no_book_depth"
  | .priceZone => "price_zone"

inductive OrderStatus
  | filled | partialFill | missed
  deriving DecidableEq, Repr

structure BookLevel where
  price : Py.Dec
  size : Py.Dec
  deriving DecidableEq, Repr

structure BookSnapshot where
  bids : List BookLevel
  asks : List BookLevel
  deriving DecidableEq, Repr

/-- The book columns of an order. -/
structure BookEvidence where
  bookSnapshot : BookSnapshot
  bookDepthShares : ℚ
  levelsConsumed : Nat
  deriving DecidableEq, Repr

inductive FeeMetadataState
  | absent | null | empty | curve
  deriving DecidableEq, Repr

/-- The fee columns of a fill beside the fee. -/
structure FeeEvidence where
  feeEnabled : Bool
  feeMetadataState : FeeMetadataState
  feeRateCoefficient : ℚ
  feeExponent : ℚ
  feeTakerOnly : Option Bool
  feeLiquidityRole : String
  feeSource : String
  feeMetadataRetrievedAt : Time
  feeCalculationShares : ℚ
  feeCalculationPrice : ℚ
  deriving DecidableEq, Repr

structure PaperOrder where
  idempotencyKey : String
  signalId : Nat
  marketId : Nat
  walletId : Nat
  side : Side
  size : ℚ
  price : ℚ
  status : OrderStatus
  filledAt : Option Time
  t2DecidedAt : Time
  fillPrice : Option ℚ
  filledSize : Option ℚ
  requestedSizeUsd : ℚ
  book : Option BookEvidence
  realizedPnlDelta : Option ℚ
  fee : Option ℚ
  feeEvidence : Option FeeEvidence
  missReason : Option MissReason
  deriving DecidableEq, Repr

structure Position where
  id : Nat
  walletId : Nat
  marketId : Nat
  outcome : String
  quantity : ℚ
  avgPrice : ℚ
  realizedPnl : ℚ
  settlementRealizedPnl : Option ℚ
  settledAt : Option Time
  deriving DecidableEq, Repr

/-- `uq_positions_wallet_market_outcome`. -/
def Position.key (p : Position) : Nat × Nat × String := (p.walletId, p.marketId, p.outcome)

/-- The key of the position a signal trades. -/
def Signal.positionKey (s : Signal) : Nat × Nat × String := (s.walletId, s.marketId, s.outcome)

/-- Fee-inclusive cost basis. -/
def Position.cost (p : Position) : ℚ := p.quantity * p.avgPrice

/-! ## Bankroll -/

structure BankrollAccount where
  startingBankrollUsd : ℚ
  realizedPnlTotal : ℚ
  withdrawnTotal : ℚ
  profitLimitUsd : Option ℚ
  stopLossFloorUsd : Option ℚ
  sweepPending : Bool
  deriving DecidableEq, Repr

/-- Derived, never stored. -/
def BankrollAccount.balance (a : BankrollAccount) : ℚ :=
  a.startingBankrollUsd + a.realizedPnlTotal - a.withdrawnTotal

inductive LedgerType
  | realizedPnl | profitWithdrawal
  deriving DecidableEq, Repr

inductive LedgerContext
  | paperSell (signalId : Nat) (sourceTradeId : String) (marketId : Nat) (outcome : String)
  | settlement (positionId walletId marketId : Nat) (outcome winningOutcome : String)
  | withdrawal (profitLimitUsd : ℚ) (isPartial : Bool)
  deriving DecidableEq, Repr

structure BankrollLedgerEntry where
  entryType : LedgerType
  amount : ℚ
  balanceAfter : ℚ
  context : LedgerContext
  deriving DecidableEq, Repr

/-! ## Decision log -/

inductive TransitionAction
  | approve | reject | disable | reenable
  deriving DecidableEq, Repr

/-- The context of one `wallet_catch_up` entry. -/
structure CatchUpRecord where
  wallet : String
  walletId : Nat
  anchorId : Option String
  headAnchor : Option String
  endTimestamp : Option Int
  nextOffset : Nat
  windowOldest : Option Int
  catchUpIncomplete : Bool
  terminationReason : String
  deriving DecidableEq, Repr

/-- Action and context of a decision-log entry. -/
inductive Decision
  | signalSkipped (signalId : Nat) (sourceTradeId : String) (reason : MissReason)
  | paperOrderExecuted (signalId : Nat) (sourceTradeId : String) (status : OrderStatus)
      (fillPrice sourcePrice filledSize depthAvailable : ℚ) (levelsConsumed : Nat) (fee : ℚ)
  | paperPositionSettled (positionId walletId marketId : Nat) (outcome winningOutcome : String)
      (quantity settlePrice avgPrice : ℚ)
  | profitWithdrawn (amount profitLimitUsd : ℚ) (isPartial : Bool) (balanceAfter : ℚ)
  | bankrollSettingsUpdated (profitLimitUsd stopLossFloorUsd : Option ℚ)
  | walletAdded (wallet : String) (label : Option String)
  | walletTransition (action : TransitionAction) (wallet : String) (source target : ApprovalState)
  | walletCatchUp (record : CatchUpRecord)
  deriving DecidableEq, Repr

structure DecisionLogEntry where
  actor : String
  decision : Decision
  deriving DecidableEq, Repr

/-! ## The database -/

structure Db where
  wallets : List Wallet
  approvalQueue : List ApprovalQueueEntry
  markets : List Market
  trades : List Trade
  settlements : List Settlement
  signals : List Signal
  paperOrders : List PaperOrder
  positions : List Position
  decisionLog : List DecisionLogEntry
  account : Option BankrollAccount
  ledger : List BankrollLedgerEntry
  /-- `ApiThrottle("gamma").next_allowed_at`. -/
  gammaThrottle : Option Time

namespace Db

def empty : Db := ⟨[], [], [], [], [], [], [], [], [], none, [], none⟩

def wallet (db : Db) (id : Nat) : Option Wallet := Keyed.find Wallet.id id db.wallets

def market (db : Db) (id : Nat) : Option Market := Keyed.find Market.id id db.markets

def signal (db : Db) (id : Nat) : Option Signal := Keyed.find Signal.id id db.signals

def position (db : Db) (key : Nat × Nat × String) : Option Position :=
  Keyed.find Position.key key db.positions

def settlement (db : Db) (marketId : Nat) : Option Settlement :=
  Keyed.find Settlement.marketId marketId db.settlements

def log (db : Db) (actor : String) (d : Decision) : Db :=
  { db with decisionLog := db.decisionLog ++ [⟨actor, d⟩] }

end Db

end Polycopy
