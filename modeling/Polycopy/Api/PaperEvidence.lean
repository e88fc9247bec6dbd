import Polycopy.Bankroll
import Polycopy.Lib.Grouped
import Polycopy.Py.Round

/-!
# The public evidence of a wallet

`wallet_paper_evidence` of `paper_evidence.py`.  The latest `approved_at` begins
a copy period; the counts of the period stand beside those of the whole
lifetime.  Floats are exact numbers, and the blocks of constant text are left
out.
-/

namespace Polycopy

/-- `_percentile`. -/
def percentile (values : List ℚ) (fraction : ℚ) : Option ℚ :=
  if values = [] then none
  else
    let ordered := values.mergeSort (· ≤ ·)
    let rank : ℚ := ((ordered.length - 1 : Nat) : ℚ) * fraction
    let lower := rank.floor.toNat
    let upper := min (ordered.length - 1) (lower + 1)
    let low := (ordered[lower]?).getD 0
    let high := (ordered[upper]?).getD 0
    some (roundEven 3 (low + (high - low) * (rank - lower)))

/-! ## Orders by status and reason -/

abbrev OrderRows := List ((OrderStatus × Option MissReason) × Nat)

def orderRows (orders : List PaperOrder) : OrderRows :=
  Grouped.counts (fun o => (o.status, o.missReason)) orders

def countWhere (among : OrderStatus → Bool) (rows : OrderRows) : Nat :=
  ((rows.filter fun g => among g.1.1).map Prod.snd).sum

def copiedOf (rows : OrderRows) : Nat :=
  countWhere (fun status => status = .filled || status = .partialFill) rows

def partialOf (rows : OrderRows) : Nat := countWhere (fun status => status = .partialFill) rows

def missesOf (rows : OrderRows) : Nat := countWhere (fun status => status = .missed) rows

/-- `reason or "unspecified"`. -/
def reasonText (reason : Option MissReason) : String :=
  (reason.map MissReason.text).getD "unspecified"

def reasonsOf (rows : OrderRows) : List (String × Nat) :=
  Grouped.dict ((rows.filter fun g => g.1.1 = .missed).map fun g => (reasonText g.1.2, g.2))

/-- `reasons.get(reason, 0)`. -/
def reasonCount (reason : String) (reasons : List (String × Nat)) : Nat :=
  ((Keyed.find Prod.fst reason reasons).map Prod.snd).getD 0

/-! ## The report -/

structure MarketOpenExposure where
  marketId : Nat
  marketQuestion : String
  exposureUsd : ℚ

structure PaperEvidence where
  walletId : Nat
  wallet : String
  approvalState : ApprovalState
  approvedAt : Option Time
  sourceTradesObserved : Nat
  eligibleSourceTrades : Nat
  signalsGenerated : Nat
  copiedTrades : Nat
  partialFills : Nat
  misses : Nat
  missReasons : List (String × Nat)
  staleSignals : Nat
  killSwitchDeferrals : Nat
  copyRate : Option ℚ
  lifetimeSignalsGenerated : Nat
  lifetimeCopiedTrades : Nat
  lifetimePartialFills : Nat
  lifetimeMisses : Nat
  lifetimeMissReasons : List (String × Nat)
  medianDetectionLagSeconds : Option ℚ
  p90DetectionLagSeconds : Option ℚ
  p95DetectionLagSeconds : Option ℚ
  medianAdverseSlippage : Option ℚ
  meanAdverseSlippage : Option ℚ
  settledCopiedPositions : Nat
  sellRealizedPnlUsd : ℚ
  settlementRealizedPnlUsd : ℚ
  pnlBreakdownIncomplete : Bool
  copiedRealizedPnlUsd : ℚ
  openExposureUsd : ℚ
  perMarketOpenExposure : List MarketOpenExposure
  distributionSampleSize : Nat
  distributionSampleTruncated : Bool
  positionSampleTruncated : Bool

/-- The trades a signal of the period can be for. -/
def eligibleTrades (db : Db) (wallet : Wallet) : List Trade :=
  match wallet.approvedAt with
  | some boundary => db.trades.filter fun t =>
      t.walletId = wallet.id && boundary ≤ t.tradedAt && boundary ≤ t.ingestedAt
  | none => []

def currentSignals (db : Db) (wallet : Wallet) : List Signal :=
  match wallet.approvedAt with
  | some boundary => db.signals.filter fun s =>
      s.walletId = wallet.id && boundary ≤ s.t0TradedAt && boundary ≤ s.t1DetectedAt
  | none => []

/-- The orders joined to some signals. -/
def ordersFor (db : Db) (signals : List Signal) : List PaperOrder :=
  signals.flatMap fun s => db.paperOrders.filter fun o => o.signalId = s.id

def signalSample (db : Db) (wallet : Wallet) : List (Signal × Option PaperOrder) :=
  let signals := (currentSignals db wallet).mergeSort fun s t => t.id ≤ s.id
  (signals.flatMap fun s =>
    match db.paperOrders.filter fun o => o.signalId = s.id with
    | [] => [(s, none)]
    | orders => orders.map fun o => (s, some o)).take 5000

def adverseSlippage (sample : List (Signal × Option PaperOrder)) : List ℚ :=
  sample.filterMap fun so =>
    match so.2 with
    | some o => match o.fillPrice with
      | some price =>
        if o.status = .filled ∨ o.status = .partialFill then
          some ((price - so.1.sourcePrice) * if so.1.side = .buy then 1 else -1)
        else none
      | none => none
    | none => none

/-- Positions with their markets, oldest first, the first thousand. -/
def positionSample (db : Db) (wallet : Wallet) : List (Position × Market) :=
  (((db.positions.filter fun p => p.walletId = wallet.id).filterMap fun p =>
    (db.market p.marketId).map fun m => (p, m)).mergeSort fun a b => a.1.id ≤ b.1.id).take 1000

def walletPaperEvidence (db : Db) (wallet : Wallet) : PaperEvidence :=
  let sourceCount := (db.trades.filter fun t => t.walletId = wallet.id).length
  let eligibleCount := (eligibleTrades db wallet).length
  let signalCount := (db.signals.filter fun s => s.walletId = wallet.id).length
  let rows := orderRows (db.paperOrders.filter fun o => o.walletId = wallet.id)
  let currentSignalCount := (currentSignals db wallet).length
  let currentRows := orderRows (ordersFor db (currentSignals db wallet))
  let sample := signalSample db wallet
  let lags := sample.map fun so => max 0 (so.1.t1DetectedAt - so.1.t0TradedAt)
  let slippage := adverseSlippage sample
  let walletPositions := db.positions.filter fun p => p.walletId = wallet.id
  let walletOrders := db.paperOrders.filter fun o => o.walletId = wallet.id
  let positions := positionSample db wallet
  { walletId := wallet.id
    wallet := wallet.address
    approvalState := wallet.approvalState
    approvedAt := wallet.approvedAt
    sourceTradesObserved := sourceCount
    eligibleSourceTrades := eligibleCount
    signalsGenerated := currentSignalCount
    copiedTrades := copiedOf currentRows
    partialFills := partialOf currentRows
    misses := missesOf currentRows
    missReasons := reasonsOf currentRows
    staleSignals := reasonCount "stale_signal" (reasonsOf currentRows)
    killSwitchDeferrals := ((currentSignals db wallet).map Signal.killSwitchDeferrals).sum
    copyRate := if eligibleCount = 0 then none
      else some (roundEven 4 (copiedOf currentRows / eligibleCount))
    lifetimeSignalsGenerated := signalCount
    lifetimeCopiedTrades := copiedOf rows
    lifetimePartialFills := partialOf rows
    lifetimeMisses := missesOf rows
    lifetimeMissReasons := reasonsOf rows
    medianDetectionLagSeconds := percentile lags (1 / 2)
    p90DetectionLagSeconds := percentile lags (9 / 10)
    p95DetectionLagSeconds := percentile lags (19 / 20)
    medianAdverseSlippage := percentile slippage (1 / 2)
    meanAdverseSlippage := if slippage = [] then none
      else some (roundEven 6 (slippage.sum / slippage.length))
    settledCopiedPositions := (walletPositions.filter fun p => p.settledAt.isSome).length
    sellRealizedPnlUsd := (walletOrders.map fun o => o.realizedPnlDelta.getD 0).sum
    settlementRealizedPnlUsd := (walletPositions.map fun p => p.settlementRealizedPnl.getD 0).sum
    pnlBreakdownIncomplete :=
      (walletPositions.any fun p => p.settledAt.isSome && p.settlementRealizedPnl.isNone) ||
      walletOrders.any fun o =>
        o.side = .sell && (o.status = .filled || o.status = .partialFill) &&
          o.realizedPnlDelta.isNone
    copiedRealizedPnlUsd := (walletPositions.map Position.realizedPnl).sum
    openExposureUsd := roundEven 6 ((walletPositions.filter Position.isOpen).map Position.cost).sum
    perMarketOpenExposure := (positions.filter fun pm => pm.1.isOpen).map fun pm =>
      ⟨pm.1.marketId, pm.2.question, roundEven 6 pm.1.cost⟩
    distributionSampleSize := sample.length
    distributionSampleTruncated := sample.length < currentSignalCount
    positionSampleTruncated := positions.length = 1000 }

/-! ## Sums over the groups -/

theorem countWhere_orders (among : OrderStatus → Bool) (orders : List PaperOrder) :
    countWhere among (orderRows orders) = orders.countP fun o => among o.status :=
  Grouped.counts_sum (fun g : OrderStatus × Option MissReason => among g.1) _ orders

theorem copiedOf_orders (orders : List PaperOrder) :
    copiedOf (orderRows orders) = orders.countP fun o =>
    o.status = .filled || o.status = .partialFill :=
  countWhere_orders (fun status => status = .filled || status = .partialFill) orders

theorem partialOf_orders (orders : List PaperOrder) :
    partialOf (orderRows orders) = orders.countP fun o => o.status = .partialFill :=
  countWhere_orders (fun status => status = .partialFill) orders

theorem missesOf_orders (orders : List PaperOrder) :
    missesOf (orderRows orders) = orders.countP fun o => o.status = .missed :=
  countWhere_orders (fun status => status = .missed) orders

theorem reasonText_inj {a b : Option MissReason} (h : reasonText a = reasonText b) : a = b := by
  cases a with
  | none => cases b with
    | none => rfl
    | some b => cases b <;> exact absurd h (by decide)
  | some a => cases b with
    | none => cases a <;> exact absurd h (by decide)
    | some b => cases a <;> cases b <;> first | rfl | exact absurd h (by decide)

theorem reasonsOf_nodup (orders : List PaperOrder) :
    ((((orderRows orders).filter fun g => g.1.1 = .missed).map fun g =>
      (reasonText g.1.2, g.2)).map Prod.fst).Nodup := by
  have hkeys : (((orderRows orders).filter fun g => g.1.1 = .missed).map Prod.fst).Nodup :=
    (Grouped.counts_nodup _ orders).sublist (List.filter_sublist.map Prod.fst)
  have htexts : ((((orderRows orders).filter fun g => g.1.1 = .missed).map fun g =>
      (reasonText g.1.2, g.2)).map Prod.fst) =
      (((orderRows orders).filter fun g => g.1.1 = .missed).map Prod.fst).map fun k =>
      reasonText k.2 := by
    rw [List.map_map, List.map_map]
    rfl
  rw [htexts]
  refine List.Nodup.map_on (fun a ha b hb he => ?_) hkeys
  obtain ⟨g, hg, rfl⟩ := List.mem_map.mp ha
  obtain ⟨g', hg', rfl⟩ := List.mem_map.mp hb
  have hstatus : g.1.1 = .missed := by simpa using (List.mem_filter.mp hg).2
  have hstatus' : g'.1.1 = .missed := by simpa using (List.mem_filter.mp hg').2
  exact Prod.ext (hstatus.trans hstatus'.symm) (reasonText_inj he)

/-- No reason hides another: the dictionary has one entry a group. -/
theorem reasonsOf_orders (orders : List PaperOrder) :
    reasonsOf (orderRows orders) =
      ((orderRows orders).filter fun g => g.1.1 = .missed).map fun g => (reasonText g.1.2, g.2) :=
  Grouped.dict_of_nodup (reasonsOf_nodup orders)

theorem reasons_total (orders : List PaperOrder) :
    ((reasonsOf (orderRows orders)).map Prod.snd).sum = missesOf (orderRows orders) := by
  rw [reasonsOf_orders, List.map_map]
  rfl

theorem reasonCount_orders (reason : String) (orders : List PaperOrder) :
    reasonCount reason (reasonsOf (orderRows orders)) =
      orders.countP fun o => o.status = .missed && reasonText o.missReason = reason := by
  unfold reasonCount
  rw [reasonsOf_orders, Grouped.find_sum reason (reasonsOf_nodup orders),
    List.filter_map, List.map_map, List.filter_filter]
  have hsum := Grouped.counts_sum (fun g : OrderStatus × Option MissReason =>
    g.1 = .missed && reasonText g.2 = reason)
    (fun o : PaperOrder => (o.status, o.missReason)) orders
  rw [← hsum]
  congr 2
  apply List.filter_congr
  intro g _
  exact Bool.and_comm _ _

end Polycopy
