import Polycopy.Accounting.Pnl
import Polycopy.Lib.Tally

/-!
# The accounting of a wallet

`accounting/service.py` with `summarize` of `pnl.py`: the joined rows of a
wallet's trades are grouped by market, each market is accounted, and the results
are added up.  SQL leaves the order of the rows open; it decides the order of
the dictionaries and nothing else (`assemble_perm`).
-/

namespace Polycopy

/-! ## Queries -/

/-- The order in which a query returns its rows. -/
structure RowOrder where
  rows : ∀ {α : Type}, List α → List α
  perm : ∀ {α : Type} (l : List α), (rows l).Perm l

/-- `trades.fee` by trade id. -/
abbrev FeeColumn := Nat → Option ℚ

abbrev AccountRow := Trade × Market × Option Settlement

/-- `trades JOIN markets WHERE …`. -/
def tradedMarkets (db : Db) (selects : Trade → Bool) : List (Trade × Market) :=
  (db.trades.filter selects).flatMap fun t =>
    (db.markets.filter fun m => m.id = t.marketId).map fun m => (t, m)

/-- `… LEFT OUTER JOIN settlements`. -/
def joinSettlements (db : Db) (tm : Trade × Market) : List AccountRow :=
  match db.settlements.filter fun s => s.marketId = tm.2.id with
  | [] => [(tm.1, tm.2, none)]
  | settlements => settlements.map fun s => (tm.1, tm.2, some s)

def accountRows (db : Db) (selects : Trade → Bool) : List AccountRow :=
  (tradedMarkets db selects).flatMap (joinSettlements db)

/-- `MIN(traded_at) … GROUP BY`. -/
def firstTimes {α κ : Type} [DecidableEq κ] (key : α → κ) (tradedAt : α → Time)
    (rows : List α) : List (κ × Time) :=
  Tally.fold key (fun o a => o.elim (tradedAt a) fun t => min t (tradedAt a)) rows

/-! ## Assembling the rows -/

/-- The dictionary `summarize` returns. -/
structure Summary where
  realizedPnl : ℚ
  settledMarketCount : Nat
  openMarketCount : Nat
  tradeCount : Nat
  winningMarketCount : Nat
  grossProfit : ℚ
  grossLoss : ℚ
  deriving DecidableEq, Repr

structure WalletAccounting where
  walletAddress : String
  summary : Summary
  markets : List MarketAccounting
  apiRealizedPnl : Option ℚ := none
  reconciliationDelta : Option ℚ := none
  deriving DecidableEq, Repr

/-- `realized_pnl or 0`. -/
def MarketAccounting.pnl (m : MarketAccounting) : ℚ := m.realizedPnl.getD 0

def summarize (markets : List MarketAccounting) : Summary :=
  let resolved := markets.filter MarketAccounting.resolved
  { realizedPnl := (resolved.map MarketAccounting.pnl).sum
    settledMarketCount := resolved.length
    openMarketCount := markets.length - resolved.length
    tradeCount := (markets.map MarketAccounting.tradeCount).sum
    winningMarketCount := resolved.countP fun m => 0 < m.pnl
    grossProfit := ((resolved.filter fun m => 0 < m.pnl).map MarketAccounting.pnl).sum
    grossLoss := -((resolved.filter fun m => m.pnl < 0).map MarketAccounting.pnl).sum }

namespace AccountRow

def conditionId (row : AccountRow) : String := row.2.1.conditionId

def leg (fee : FeeColumn) (row : AccountRow) : TradeLeg :=
  { marketKey := row.2.1.conditionId
    outcome := row.1.outcome
    side := row.1.side
    size := row.1.size
    price := row.1.price
    fee := (fee row.1.id).getD 0 }

def winner (row : AccountRow) : Option String := row.2.2.map Settlement.winningOutcome

end AccountRow

def legsByMarket (fee : FeeColumn) (rows : List AccountRow) : List (String × List TradeLeg) :=
  Tally.groups AccountRow.conditionId (AccountRow.leg fee) rows

/-- A later row overwrites the winner. -/
def winners (rows : List AccountRow) : List (String × Option String) :=
  Tally.fold AccountRow.conditionId (fun _ row => row.winner) rows

/-- `_assemble_wallet_accounting`. -/
def assembleWalletAccounting (fee : FeeColumn) (wallet : Wallet)
    (rows : List AccountRow) : WalletAccounting :=
  let markets := (legsByMarket fee rows).map fun kv =>
    accountMarket kv.1 kv.2 ((Tally.get kv.1 (winners rows)).getD none)
  { walletAddress := wallet.address, summary := summarize markets, markets := markets }

def computeWalletAccounting (order : RowOrder) (fee : FeeColumn) (db : Db)
    (wallet : Wallet) : WalletAccounting :=
  assembleWalletAccounting fee wallet (order.rows (accountRows db fun t => t.walletId = wallet.id))

/-- The markets whose first trade of the wallet is in `[cutoff, now]`. -/
def decidedMarkets (db : Db) (walletId : Nat) (cutoff now : Time) : List Nat :=
  ((firstTimes Trade.marketId Trade.tradedAt
    (db.trades.filter fun t => t.walletId = walletId)).filter fun kv =>
      cutoff ≤ kv.2 && kv.2 ≤ now).map Prod.fst

def computeWalletAccountingForDecisionWindow (order : RowOrder)
    (fee : FeeColumn) (db : Db) (wallet : Wallet) (now : Time)
    (days : Nat) : WalletAccounting :=
  let cutoff := now - days * 86400
  let marketIds := order.rows (decidedMarkets db wallet.id cutoff now)
  if marketIds = [] then assembleWalletAccounting fee wallet []
  else
    assembleWalletAccounting fee wallet
      (order.rows (accountRows db fun t =>
        t.walletId = wallet.id && decide (t.marketId ∈ marketIds)))

/-! ## What the joins return -/

/-- The unique columns: `markets.id`, `markets.condition_id`, `uq_settlements_market`. -/
structure Db.Constrained (db : Db) : Prop where
  marketIds : (db.markets.map Market.id).Nodup
  conditionIds : (db.markets.map Market.conditionId).Nodup
  settledOnce : (db.settlements.map Settlement.marketId).Nodup

theorem mem_tradedMarkets {db : Db} {selects : Trade → Bool} {tm : Trade × Market} :
    tm ∈ tradedMarkets db selects ↔
      tm.1 ∈ db.trades ∧ selects tm.1 = true ∧ tm.2 ∈ db.markets ∧ tm.2.id = tm.1.marketId := by
  obtain ⟨t, m⟩ := tm
  simp [tradedMarkets, and_assoc]

theorem joinSettlements_eq {db : Db} (hs : (db.settlements.map Settlement.marketId).Nodup)
    (tm : Trade × Market) :
    joinSettlements db tm = [(tm.1, tm.2, db.settlement tm.2.id)] := by
  unfold joinSettlements Db.settlement
  rw [Keyed.filter_key Settlement.marketId tm.2.id hs]
  cases Keyed.find Settlement.marketId tm.2.id db.settlements <;> rfl

theorem accountRows_eq {db : Db} (hs : (db.settlements.map Settlement.marketId).Nodup)
    (selects : Trade → Bool) :
    accountRows db selects = (tradedMarkets db selects).map fun tm =>
    (tm.1, tm.2, db.settlement tm.2.id) := by
  unfold accountRows
  rw [← List.flatMap_pure_eq_map]
  exact congrArg (fun f => (tradedMarkets db selects).flatMap f)
    (funext fun tm => joinSettlements_eq hs tm)

theorem tradedMarkets_filter (db : Db) (selects p : Trade → Bool) :
    tradedMarkets db (fun t => selects t && p t) =
      (tradedMarkets db selects).filter fun tm => p tm.1 := by
  unfold tradedMarkets
  induction db.trades with
  | nil => rfl
  | cons t trades ih =>
    rw [List.filter_cons, List.filter_cons]
    by_cases hs : selects t
    · have hrow : ∀ tm ∈ (db.markets.filter fun m => m.id = t.marketId).map fun m =>
          (t, m), p tm.1 = p t := by
        intro tm htm
        obtain ⟨m, -, rfl⟩ := List.mem_map.mp htm
        rfl
      rw [if_pos hs, List.flatMap_cons, List.filter_append, ← ih]
      by_cases hp : p t
      · rw [if_pos (by simp [hs, hp]), List.flatMap_cons,
          List.filter_eq_self.mpr fun tm htm => (hrow tm htm).trans hp]
      · have hnil : ((db.markets.filter fun m => m.id = t.marketId).map fun m => (t, m)).filter
            (fun tm : Trade × Market => p tm.1) = [] :=
          List.filter_eq_nil_iff.mpr fun tm htm => by rw [hrow tm htm]; exact hp
        rw [if_neg (by simp [hp]), hnil, List.nil_append]
    · rw [if_neg hs, if_neg (by simp [hs]), ih]

/-- Rows of one condition id are rows of one market and show one winner. -/
theorem rows_coherent {db : Db} (hc : db.Constrained) {selects : Trade → Bool} {r r' : AccountRow}
    (hr : r ∈ accountRows db selects) (hr' : r' ∈ accountRows db selects)
    (h : r.conditionId = r'.conditionId) :
    r.2 = r'.2 := by
  rw [accountRows_eq hc.settledOnce] at hr hr'
  obtain ⟨tm, htm, rfl⟩ := List.mem_map.mp hr
  obtain ⟨tm', htm', rfl⟩ := List.mem_map.mp hr'
  have heq := Keyed.eq_of_key Market.conditionId hc.conditionIds (mem_tradedMarkets.mp htm).2.2.1
    (mem_tradedMarkets.mp htm').2.2.1 h
  dsimp only
  rw [heq]

end Polycopy
