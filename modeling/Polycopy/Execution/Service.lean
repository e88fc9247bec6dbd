import Polycopy.Bankroll
import Polycopy.Execution.BookWalk
import Polycopy.Execution.Fees

/-!
# Signal detection, paper execution, paper settlement

`execute_signal` waits twice for the network, so it is three functions here: the
gates before the book request, what the book decides, what the fee decides, and
then the writes of a fill.  `executeSignal` puts them together.  A function that
writes takes the database as the session sees it and returns it with its writes;
the caller commits or rolls back.
-/

namespace Polycopy

open Py

/-! ## Book levels -/

/-- `_valid_level`. -/
def validLevel (price size : Dec) : Bool :=
  match price.value, size.value with
  | some p, some s => 0 < p && p ≤ 1 && 0 < s
  | _, _ => false

/-- One level of the response; what does not parse or is not valid is dropped. -/
def parseLevel (lv : Json) : Option BookLevel :=
  match lv.item "price", lv.item "size" with
  | .ok p, .ok s => match p.toDec, s.toDec with
    | some price, some size => if validLevel price size then some ⟨price, size⟩ else none
    | _, _ => none
  | _, _ => none

def parseLevels (rawLevels : Json) : Except Exc (List BookLevel) :=
  if rawLevels.truthy then match rawLevels.iter with
    | .ok l => .ok (l.filterMap parseLevel)
    | .error e => .error e
  else .ok []

/-! ## Detection -/

/-- The rows of an `ORDER BY f LIMIT n` over what the query found; ties come in any order. -/
def QueryRows {α : Type} (f : α → Time) (n : Nat) (found rows : List α) : Prop :=
  ∃ l : List α, l.Perm found ∧ l.Pairwise (fun a b => f a ≤ f b) ∧ rows = l.take n

/-- The wallet is approved and the two times are not before its `approved_at`. -/
def copyEnabled (wallet : Option Wallet) (tradedAt seenAt : Time) : Bool :=
  match wallet with
  | none => false
  | some w => w.approvalState = .approved && match w.approvedAt with
    | none => false
    | some b => b ≤ tradedAt && b ≤ seenAt

def alreadySignaled (db : Db) (t : Trade) : Bool :=
  db.signals.any fun s => s.sourceTradeId = t.polymarketTradeId

def detectable (db : Db) : List Trade :=
  db.trades.filter fun t =>
    copyEnabled (db.wallet t.walletId) t.tradedAt t.ingestedAt && !alreadySignaled db t

def Signal.ofTrade (id : Nat) (t : Trade) : Signal where
  id := id
  walletId := t.walletId
  marketId := t.marketId
  sourceTradeId := t.polymarketTradeId
  assetId := t.assetId
  side := t.side
  outcome := t.outcome
  sourcePrice := t.price
  status := .pending
  killSwitchDeferrals := 0
  t0TradedAt := t.tradedAt
  t1DetectedAt := t.ingestedAt

def addSignal (db : Db) (t : Trade) : Db :=
  { db with signals := db.signals ++ [Signal.ofTrade (Keyed.fresh Signal.id db.signals) t] }

/-- `detect_signals` on the rows its query returned. -/
def detectSignals (db : Db) (rows : List Trade) : Db := rows.foldl addSignal db

/-! ## Before the book request -/

def globalExposure (db : Db) : ℚ := (db.positions.map Position.cost).sum

def marketExposure (db : Db) (marketId : Nat) : ℚ :=
  ((db.positions.filter fun p => p.marketId = marketId).map Position.cost).sum

/-- `f"paper:{source_trade_id}"`. -/
def idempotencyKey (s : Signal) : String := "paper:" ++ s.sourceTradeId

def missedOrder (cfg : Settings) (s : Signal) (reason : MissReason) (now : Time)
    (book : Option BookEvidence) : PaperOrder where
  idempotencyKey := idempotencyKey s
  signalId := s.id
  marketId := s.marketId
  walletId := s.walletId
  side := s.side
  size := 0
  price := 0
  status := .missed
  filledAt := none
  t2DecidedAt := now
  fillPrice := none
  filledSize := none
  requestedSizeUsd := cfg.maxOrderSizeUsd
  book := book
  realizedPnlDelta := none
  fee := none
  feeEvidence := none
  missReason := some reason

def setStatus (status : SignalStatus) (id : Nat) (signals : List Signal) : List Signal :=
  Keyed.update Signal.id id (fun s => { s with status := status }) signals

/-- A missed order, the signal skipped and one decision-log entry. -/
def recordSkip (cfg : Settings) (db : Db) (s : Signal) (reason : MissReason) (now : Time)
    (book : Option BookEvidence) : Db :=
  { db with
    paperOrders := db.paperOrders ++ [missedOrder cfg s reason now book]
    signals := setStatus .skipped s.id db.signals }.log "bot"
      (.signalSkipped s.id s.sourceTradeId reason)

def bumpDeferrals (id : Nat) (signals : List Signal) : List Signal :=
  Keyed.update Signal.id id (fun s => { s with
    killSwitchDeferrals := s.killSwitchDeferrals + 1 }) signals

def eligibleAt (cfg : Settings) (s : Signal) : Time := s.t1DetectedAt + cfg.reviewDelaySeconds

/-- What the gates keep in local variables for later. -/
inductive SidePlan
  | buy (globalExp marketExp cash : ℚ)
  | sell (owned : ℚ)
  | other
  deriving DecidableEq, Repr

structure Plan where
  tokenId : String
  conditionId : String
  side : SidePlan
  deriving DecidableEq, Repr

def Plan.owned (plan : Plan) : Option ℚ :=
  match plan.side with
  | .sell owned => some owned
  | _ => none

inductive Gates
  | raised
  | deferred
  | skip (reason : MissReason)
  | request (plan : Plan)
  deriving DecidableEq, Repr

/-- `signal.asset_id or (market.clob_token_ids or {}).get(signal.outcome)`, none when empty. -/
def tokenFor (s : Signal) (m : Market) : Option String :=
  match s.assetId.filter (· ≠ "") with
  | some t => some t
  | none => (((m.clobTokenIds.getD []).find? fun kv => kv.1 = s.outcome).map (·.2)).filter (· ≠ "")

def ownedShares (db : Db) (s : Signal) : ℚ :=
  ((db.position s.positionKey).map Position.quantity).getD 0

/-- The checks that depend on the side. A BUY that gets past the caps creates the
account when missing. -/
def sideGates (cfg : Settings) (db : Db) (s : Signal) : Db × Except MissReason SidePlan :=
  match s.side with
  | .sell =>
    if ownedShares db s ≤ 0 then (db, .error .noPositionToSell)
    else (db, .ok (.sell (ownedShares db s)))
  | .buy =>
    let globalExp := globalExposure db
    let marketExp := marketExposure db s.marketId
    if cfg.maxExposureGlobalUsd < globalExp + cfg.maxOrderSizeUsd ∨
        cfg.maxExposurePerMarketUsd < marketExp + cfg.maxOrderSizeUsd then (db, .error .exposureCap)
    else
      let (account, db) := getOrCreateBankrollAccount cfg db
      if stopLossHit account then (db, .error .bankrollStopLoss)
      else if account.balance - globalExp ≤ 0 then (db, .error .bankrollInsufficient)
      else (db, .ok (.buy globalExp marketExp (account.balance - globalExp)))
  | .other _ => (db, .ok .other)

/-- `_assert_paper_mode`. -/
def paperOnly (cfg : Settings) : Bool := cfg.paperMode && !cfg.allowLiveTrading

/-- `execute_signal` up to the book request. -/
def executeGates (cfg : Settings) (now : Time) (db : Db) (s : Signal) : Db × Gates :=
  if !paperOnly cfg then (db, .raised)
  else if cfg.maxSignalExecutionAgeSeconds < now - s.t0TradedAt then (db, .skip .staleSignal)
  else if cfg.orderKillSwitch then ({ db with signals := bumpDeferrals s.id db.signals }, .deferred)
  else if now < eligibleAt cfg s then (db, .deferred)
  else if !copyEnabled (db.wallet s.walletId) s.t0TradedAt s.t1DetectedAt then
    (db, .skip .walletNotApproved)
  else match db.market s.marketId with
    | none => (db, .skip .marketClosed)
    | some m =>
      if m.closed then (db, .skip .marketClosed)
      else match tokenFor s m with
        | none => (db, .skip .noTokenForOutcome)
        | some tokenId => match sideGates cfg db s with
          | (db, .error reason) => (db, .skip reason)
          | (db, .ok side) => (db, .request ⟨tokenId, m.conditionId, side⟩)

/-! ## After the book -/

inductive BookOutcome
  | skip (reason : MissReason) (book : BookEvidence)
  | fill (fill : Fill) (snapshot : BookSnapshot)
  deriving DecidableEq, Repr

def bookEvidence (fill : Fill) (snapshot : BookSnapshot) : BookEvidence :=
  ⟨snapshot, fill.depthAvailable, fill.levelsConsumed⟩

def afterBook (cfg : Settings) (s : Signal) (plan : Plan) (book : Json) :
    Except Exc BookOutcome := do
  let bids ← parseLevels (← book.get "bids")
  let asks ← parseLevels (← book.get "asks")
  match ← walkBook s.side cfg.maxOrderSizeUsd bids asks plan.owned with
  | .missed depthAvailable => return .skip .noBookDepth ⟨⟨bids, asks⟩, depthAvailable, 0⟩
  | .took fill =>
    if s.side = .buy ∧ cfg.maxCopyPrice ≤ fill.fillPrice then
      return .skip .priceZone (bookEvidence fill ⟨bids, asks⟩)
    else return .fill fill ⟨bids, asks⟩

/-! ## After the fee -/

inductive FeeOutcome
  | skip (reason : MissReason)
  | fill (fee : ℚ) (marketFee : MarketFee)
  deriving DecidableEq, Repr

/-- The second cap check and the cash check, on the exact fill; a SELL passes. -/
def feeGates (cfg : Settings) (plan : Plan) (fill : Fill) (fee : ℚ) : Option MissReason :=
  match plan.side with
  | .buy globalExp marketExp cash =>
    if cfg.maxExposureGlobalUsd < globalExp + fill.filledSize * fill.fillPrice + fee ∨
        cfg.maxExposurePerMarketUsd < marketExp + fill.filledSize *
          fill.fillPrice + fee then some .exposureCap
    else if cash < fill.filledSize * fill.fillPrice + fee then some .bankrollInsufficient
    else none
  | _ => none

def afterFee (pw : DecPow) (cfg : Settings) (plan : Plan) (fill : Fill) (feeInfo : Json) :
    Except Exc FeeOutcome := do
  let marketFee ← MarketFee.fromMarketInfo feeInfo
  let fee ← marketFee.takerFee pw fill.filledSize fill.fillPrice
  match feeGates cfg plan fill fee with
  | some reason => return .skip reason
  | none => return .fill fee marketFee

/-! ## The writes of a fill -/

def newPosition (positions : List Position) (s : Signal) : Position where
  id := Keyed.fresh Position.id positions
  walletId := s.walletId
  marketId := s.marketId
  outcome := s.outcome
  quantity := 0
  avgPrice := 0
  realizedPnl := 0
  settlementRealizedPnl := none
  settledAt := none

/-- The position update of a BUY: the fee goes into the cost basis. -/
def Position.buy (p : Position) (size price fee : ℚ) : Position :=
  { p with
    quantity := p.quantity + size
    avgPrice := if 0 < p.quantity + size then
      (p.quantity * p.avgPrice + size * price + fee) / (p.quantity + size) else 0 }

/-- `order.realized_pnl_delta` of a SELL: the fee comes out of it. -/
def Position.sellDelta (p : Position) (size price fee : ℚ) : ℚ :=
  min p.quantity size * (price - p.avgPrice) - fee

def Position.sell (p : Position) (size price fee : ℚ) : Position :=
  { p with
    realizedPnl := p.realizedPnl + p.sellDelta size price fee
    quantity := p.quantity - min p.quantity size }

def filledOrder (cfg : Settings) (s : Signal) (now retrievedAt : Time) (fill : Fill)
    (snapshot : BookSnapshot) (fee : ℚ) (marketFee : MarketFee)
    (delta : Option ℚ) : PaperOrder where
  idempotencyKey := idempotencyKey s
  signalId := s.id
  marketId := s.marketId
  walletId := s.walletId
  side := s.side
  size := fill.filledSize
  price := fill.fillPrice
  status := fill.status
  filledAt := some now
  t2DecidedAt := now
  fillPrice := some fill.fillPrice
  filledSize := some fill.filledSize
  requestedSizeUsd := cfg.maxOrderSizeUsd
  book := some (bookEvidence fill snapshot)
  realizedPnlDelta := delta
  fee := some fee
  feeEvidence := some {
    feeEnabled := 0 < marketFee.rate
    feeMetadataState := marketFee.metadataState
    feeRateCoefficient := marketFee.rate
    feeExponent := marketFee.exponent
    feeTakerOnly := marketFee.takerOnly
    feeLiquidityRole := "taker"
    feeSource := feeSource
    feeMetadataRetrievedAt := retrievedAt
    feeCalculationShares := fill.filledSize
    feeCalculationPrice := fill.fillPrice }
  missReason := none

/-- The position the signal trades, as found or new. -/
def positionFor (db : Db) (s : Signal) : Position :=
  (db.position s.positionKey).getD (newPosition db.positions s)

/-- Position and bankroll; also the order's `realized_pnl_delta`. -/
def applyFill (cfg : Settings) (db : Db) (s : Signal) (fill : Fill) (fee : ℚ) : Db × Option ℚ :=
  let p := positionFor db s
  if s.side = .buy then
    ({ db with
        positions :=
          Keyed.put Position.key (p.buy fill.filledSize fill.fillPrice fee) db.positions }, none)
  else
    let delta := p.sellDelta fill.filledSize fill.fillPrice fee
    let db := { db with
      positions := Keyed.put Position.key (p.sell fill.filledSize fill.fillPrice fee) db.positions }
    (postRealizedPnl cfg db delta (.paperSell s.id s.sourceTradeId s.marketId s.outcome), some delta)

/-- Everything a fill commits. -/
def commitFill (cfg : Settings) (db : Db) (s : Signal) (now retrievedAt : Time) (fill : Fill)
    (snapshot : BookSnapshot) (fee : ℚ) (marketFee : MarketFee) : Db :=
  let (db, delta) := applyFill cfg db s fill fee
  { db with
    paperOrders :=
      db.paperOrders ++ [filledOrder cfg s now retrievedAt fill snapshot fee marketFee delta]
    signals := setStatus .executed s.id db.signals }.log "bot"
      (.paperOrderExecuted s.id s.sourceTradeId fill.status fill.fillPrice
        s.sourcePrice fill.filledSize
        fill.depthAvailable fill.levelsConsumed fee)

/-! ## `execute_signal` -/

/-- What the caller finds after the call, with the session's writes in `db`:
`raised` is rolled back, `deferred` is left uncommitted, the others are committed. -/
inductive Executed
  | raised
  | deferred (db : Db)
  | skipped (reason : MissReason) (db : Db)
  | filled (db : Db)

/-- The whole of `execute_signal` on one session, the two responses given. -/
def executeSignal (pw : DecPow) (cfg : Settings) (now retrievedAt : Time) (db : Db) (s : Signal)
    (book : String → Except Exc Json) (feeInfo : String → Except Exc Json) : Executed :=
  match executeGates cfg now db s with
  | (_, .raised) => .raised
  | (db, .deferred) => .deferred db
  | (db, .skip reason) => .skipped reason (recordSkip cfg db s reason now none)
  | (db, .request plan) => match (book plan.tokenId).bind (afterBook cfg s plan) with
    | .error _ => .raised
    | .ok (.skip reason evidence) =>
      .skipped reason (recordSkip cfg db s reason now (some evidence))
    | .ok (.fill fill snapshot) =>
      match (feeInfo plan.conditionId).bind (afterFee pw cfg plan fill) with
      | .error _ => .raised
      | .ok (.skip reason) =>
        .skipped reason (recordSkip cfg db s reason now (some (bookEvidence fill snapshot)))
      | .ok (.fill fee marketFee) =>
        .filled (commitFill cfg db s now retrievedAt fill snapshot fee marketFee)

/-! ## `settle_paper_positions` -/

/-- Open positions whose market has a settlement. -/
def settleRows (db : Db) : List (Position × Settlement) :=
  db.positions.filterMap fun p =>
    if p.isOpen then (db.settlement p.marketId).map fun st => (p, st) else none

def settlePrice (p : Position) (st : Settlement) : ℚ :=
  if p.outcome = st.winningOutcome then 1 else 0

def settlementPnl (p : Position) (st : Settlement) : ℚ :=
  p.quantity * (settlePrice p st - p.avgPrice)

def Position.settle (p : Position) (st : Settlement) (now : Time) : Position :=
  { p with
    settlementRealizedPnl := some (settlementPnl p st)
    realizedPnl := p.realizedPnl + settlementPnl p st
    quantity := 0
    settledAt := some now }

def settlePosition (cfg : Settings) (now : Time) (db : Db) (row : Position × Settlement) : Db :=
  let (p, st) := row
  let db := { db with positions := Keyed.put Position.key (p.settle st now) db.positions }
  let db := postRealizedPnl cfg db (settlementPnl p st)
    (.settlement p.id p.walletId p.marketId p.outcome st.winningOutcome)
  db.log "bot"
    (.paperPositionSettled p.id p.walletId p.marketId p.outcome st.winningOutcome p.quantity
    (settlePrice p st) p.avgPrice)

/-- `settle_paper_positions` on the rows of its join. -/
def settlePaperPositions (cfg : Settings) (now : Time) (db : Db)
    (rows : List (Position × Settlement)) : Db :=
  rows.foldl (settlePosition cfg now) db

end Polycopy
