import Polycopy.Schedule

/-!
# Conservation of the paper portfolio

Cash, cost basis, realized P&L and the ledger live in four tables.  `Conserved`
is the law that ties them together; it holds of the empty database and every
effect keeps it, so it holds after every run.  The orders, the settlement
entries of the log and the ledger are the record it is checked against.
-/

namespace Polycopy

/-! ## The record -/

/-- The fills of one side. -/
def fillsOf (side : Side) (db : Db) : List PaperOrder :=
  db.paperOrders.filter fun o => o.isFill && o.side = side

/-- What the BUY fills cost, fees included. -/
def buyOutlay (db : Db) : ℚ := ((fillsOf .buy db).map fun o => o.notional + o.fee.getD 0).sum

/-- What the SELL fills brought in, fees deducted. -/
def sellProceeds (db : Db) : ℚ := ((fillsOf .sell db).map fun o => o.notional - o.fee.getD 0).sum

def Decision.settledValue : Decision → ℚ
  | .paperPositionSettled _ _ _ _ _ quantity settlePrice _ => quantity * settlePrice
  | _ => 0

/-- Shares of winning outcomes at settlement: one dollar each. -/
def winningShares (db : Db) : ℚ := ((bookLog db).map fun e => e.decision.settledValue).sum

def withdrawals (db : Db) : ℚ := -ledgerTotal .profitWithdrawal db.ledger

def realizedOfPositions (db : Db) : ℚ := (db.positions.map Position.realizedPnl).sum

def realizedOfOrders (db : Db) : ℚ := (db.paperOrders.map fun o => o.realizedPnlDelta.getD 0).sum

def realizedOfSettlements (db : Db) : ℚ :=
  (db.positions.map fun p => p.settlementRealizedPnl.getD 0).sum

/-! ## The law -/

structure Conserved (cfg : Settings) (db : Db) : Prop where
  quantity_nonneg : ∀ p ∈ db.positions, 0 ≤ p.quantity
  unsettled : ∀ p ∈ db.positions, p.settledAt = none → p.settlementRealizedPnl = none
  cash : (accountOf cfg db).realizedPnlTotal - (accountOf cfg db).withdrawnTotal - globalExposure db =
    sellProceeds db - buyOutlay db + winningShares db - withdrawals db
  positions : (accountOf cfg db).realizedPnlTotal = realizedOfPositions db
  parts : (accountOf cfg db).realizedPnlTotal = realizedOfOrders db + realizedOfSettlements db
  ledger : (accountOf cfg db).realizedPnlTotal = ledgerTotal .realizedPnl db.ledger
  withdrawn : (accountOf cfg db).withdrawnTotal = withdrawals db

theorem conserved_empty (cfg : Settings) : Conserved cfg Db.empty where
  quantity_nonneg := by simp [Db.empty]
  unsettled := by simp [Db.empty]
  cash := by
    simp [accountOf, freshAccount, Db.empty, globalExposure, sellProceeds, buyOutlay, fillsOf,
    winningShares, bookLog, withdrawals, ledgerTotal]
  positions := rfl
  parts := (add_zero 0).symm
  ledger := rfl
  withdrawn := rfl

/-- Without a row the account has moved nothing, whatever the settings. -/
theorem accountOf_settings (cfg cfg' : Settings) (db : Db) :
    (accountOf cfg' db).realizedPnlTotal = (accountOf cfg db).realizedPnlTotal ∧
    (accountOf cfg' db).withdrawnTotal = (accountOf cfg db).withdrawnTotal := by
  unfold accountOf
  cases db.account <;> exact ⟨rfl, rfl⟩

theorem Conserved.settings {cfg : Settings} {db : Db} (cfg' : Settings) (h : Conserved cfg db) :
    Conserved cfg' db := by
  obtain ⟨hr, hw⟩ := accountOf_settings cfg cfg' db
  exact ⟨h.quantity_nonneg, h.unsettled, by rw [hr, hw]; exact h.cash, hr.trans h.positions,
    hr.trans h.parts, hr.trans h.ledger, hw.trans h.withdrawn⟩

/-! ## Sums over the rows a fill or a settlement touches -/

theorem fillsOf_snoc (side : Side) (db : Db) (o : PaperOrder) (f : PaperOrder → ℚ) :
    (((db.paperOrders ++ [o]).filter fun o => o.isFill && o.side = side).map f).sum =
      ((fillsOf side db).map f).sum + if o.isFill && o.side = side then f o else 0 := by
  unfold fillsOf
  rw [List.filter_append, List.map_append, List.sum_append]
  by_cases h : (o.isFill && o.side = side) = true <;> simp [h]

theorem winningShares_log (db : Db) (actor : String) (d : Decision) :
    winningShares (db.log actor d) = winningShares db + d.settledValue := by
  unfold winningShares
  rw [bookLog_log, List.map_append, List.sum_append]
  cases d <;> simp [Decision.isBook, Decision.settledValue]

/-! ## Each effect keeps it -/

section
variable {cfg : Settings} {db : Db}

theorem Conserved.same {db' : Db} (h : Conserved cfg db)
    (hs : SameBooks cfg db db') : Conserved cfg db' := by
  obtain ⟨h1, h2, h3, h4, h5, h6, h7⟩ := h
  unfold globalExposure sellProceeds buyOutlay fillsOf winningShares withdrawals realizedOfPositions
    realizedOfOrders realizedOfSettlements at *
  rw [← hs.positions] at h1 h2
  rw [← hs.realized, ← hs.withdrawn, ← hs.positions, ← hs.paperOrders, ← hs.log, ← hs.ledger] at h3
  rw [← hs.realized, ← hs.positions] at h4
  rw [← hs.realized, ← hs.positions, ← hs.paperOrders] at h5
  rw [← hs.realized, ← hs.ledger] at h6
  rw [← hs.withdrawn, ← hs.ledger] at h7
  exact ⟨h1, h2, h3, h4, h5, h6, h7⟩

theorem Conserved.missed (h : Conserved cfg db) (s : Signal) (reason : MissReason) (now : Time)
    (book : Option BookEvidence) : Conserved cfg (recordSkip cfg db s reason now book) := by
  have hfill : ∀ side, fillsOf side (recordSkip cfg db s reason now book) = fillsOf side db := by
    intro side
    show (db.paperOrders ++ [_]).filter _ = _
    rw [List.filter_append]
    exact List.append_nil _
  have hwin : winningShares (recordSkip cfg db s reason now book) = winningShares db := by
    unfold recordSkip
    rw [winningShares_log]
    exact add_zero _
  have horders : realizedOfOrders (recordSkip cfg db s reason now book) = realizedOfOrders db := by
    show ((db.paperOrders ++ [_]).map _).sum = _
    rw [List.map_append, List.sum_append]
    exact add_eq_left.mpr (by simp [missedOrder])
  refine ⟨h.quantity_nonneg, h.unsettled, ?_, h.positions, ?_, h.ledger, h.withdrawn⟩
  · unfold sellProceeds buyOutlay
    rw [hfill, hfill, hwin]
    exact h.cash
  · rw [horders]
    exact h.parts

/-- A fill posts the order's `realized_pnl_delta`, nothing for a BUY. -/
theorem postFill_totals (cfg : Settings) (db : Db) (s : Signal) (delta : Option ℚ) :
    (accountOf cfg (postFill cfg db s delta)).realizedPnlTotal =
      (accountOf cfg db).realizedPnlTotal + delta.getD 0 ∧
    (accountOf cfg (postFill cfg db s delta)).withdrawnTotal = (accountOf cfg db).withdrawnTotal ∧
    ledgerTotal .realizedPnl (postFill cfg db s delta).ledger =
      ledgerTotal .realizedPnl db.ledger + delta.getD 0 ∧
    ledgerTotal .profitWithdrawal (postFill cfg db s delta).ledger =
      ledgerTotal .profitWithdrawal db.ledger := by
  cases delta with
  | none => exact ⟨(add_zero _).symm, rfl, (add_zero _).symm, rfl⟩
  | some d =>
    refine ⟨posted_realized _ _ _ _, posted_withdrawn _ _ _ _,
      posted_ledger _ _ _ _ .realizedPnl, ?_⟩
    exact (posted_ledger _ _ _ _ .profitWithdrawal).trans (add_zero _)

/-- Cost basis, outlay and proceeds move by the same dollars. -/
theorem fill_cash {s : Signal} {plan : Plan} {fill : Fill} {fee : ℚ}
    (guard : FillGuard cfg db s plan fill fee) (hq : 0 ≤ (positionFor db s).quantity) :
    ((positionFor db s).fillDelta s.side fill fee).getD 0 -
        (((positionFor db s).fill s.side fill fee).cost - (positionFor db s).cost) =
      (if s.side = .sell then fill.filledSize * fill.fillPrice - fee else 0) -
        (if s.side = .buy then fill.filledSize * fill.fillPrice + fee else 0) := by
  unfold Position.fillDelta Position.fill
  rcases guard.traded with hs | hs
  · have hne : ¬ s.side = .sell := by rw [hs]; decide
    rw [if_pos hs, if_pos hs, if_pos hs, if_neg hne,
      Position.buy_cost _ _ _ _ hq guard.walk.size_pos]
    show (0 : ℚ) - _ = _
    ring
  · have hne : ¬ s.side = .buy := by rw [hs]; decide
    have hle := guard.size_le hs
    rw [if_neg hne, if_neg hne, if_neg hne, if_pos hs, Position.sell_cost _ _ _ _ hle,
      Position.sellDelta_eq _ _ _ _ hle]
    show _ - _ - _ = _
    ring

theorem filled_record {s : Signal} {plan : Plan} {fill : Fill} {fee : ℚ}
    (guard : FillGuard cfg db s plan fill fee) (now retrievedAt : Time) (snapshot : BookSnapshot)
    (marketFee : MarketFee) :
    sellProceeds (commitFill cfg db s now retrievedAt fill snapshot fee marketFee) =
      sellProceeds db +
      (if s.side = .sell then fill.filledSize * fill.fillPrice - fee else 0) ∧
    buyOutlay (commitFill cfg db s now retrievedAt fill snapshot fee marketFee) = buyOutlay db +
      (if s.side = .buy then fill.filledSize * fill.fillPrice + fee else 0) := by
  have hfill := filledOrder_isFill guard now retrievedAt snapshot marketFee
  rw [commitFill_eq]
  constructor
  · show ((List.filter _ (db.paperOrders ++ [_])).map _).sum = _
    rw [fillsOf_snoc, hfill]
    by_cases hs : s.side = .sell <;> simp [filledOrder, PaperOrder.notional, sellProceeds, hs]
  · show ((List.filter _ (db.paperOrders ++ [_])).map _).sum = _
    rw [fillsOf_snoc, hfill]
    by_cases hs : s.side = .buy <;> simp [filledOrder, PaperOrder.notional, buyOutlay, hs]

theorem fill_realized (p : Position) (side : Side) (f : Fill) (fee : ℚ) :
    (p.fill side f fee).realizedPnl = p.realizedPnl + (p.fillDelta side f fee).getD 0 := by
  unfold Position.fill Position.fillDelta
  split
  · exact (add_zero _).symm
  · rfl

theorem Conserved.filled (h : Conserved cfg db) {s : Signal} {plan : Plan} {fill : Fill} {fee : ℚ}
    (now retrievedAt : Time) (snapshot : BookSnapshot) (marketFee : MarketFee)
    (guard : FillGuard cfg db s plan fill fee) :
    Conserved cfg (commitFill cfg db s now retrievedAt fill snapshot fee marketFee) := by
  have hq := positionFor_nonneg h.quantity_nonneg s
  have hset : (positionFor db s).settledAt = none →
      (positionFor db s).settlementRealizedPnl = none := by
    unfold positionFor
    cases hp : db.position s.positionKey with
    | none => exact fun _ => rfl
    | some p => exact h.unsettled p (Keyed.find_some Position.key hp).1
  have hkey : ((positionFor db s).fill s.side fill fee).key = s.positionKey := by
    rw [fill_key, positionFor_key]
  have hsum := fun f => sum_put_position db s ((positionFor db s).fill s.side fill fee) f hkey
  obtain ⟨hr, hw, hl, hlw⟩ := postFill_totals cfg db s ((positionFor db s).fillDelta s.side fill fee)
  have hcash := fill_cash guard hq
  obtain ⟨hfs, hfa⟩ := fill_settlement (positionFor db s) s.side fill fee
  obtain ⟨hsell, hbuy⟩ := filled_record guard now retrievedAt snapshot marketFee
  rw [commitFill_eq] at hsell hbuy ⊢
  refine ⟨?_, ?_, ?_, ?_, ?_, ?_, ?_⟩
  · intro p hp
    rcases Keyed.mem_put_of Position.key hp with rfl | hp
    · exact fill_quantity_nonneg guard hq
    · exact h.quantity_nonneg p hp
  · intro p hp
    rcases Keyed.mem_put_of Position.key hp with rfl | hp
    · rw [hfs, hfa]; exact hset
    · exact h.unsettled p hp
  · have hold := h.cash
    rw [hsell, hbuy, winningShares_log]
    show (accountOf cfg (postFill cfg db s _)).realizedPnlTotal -
        (accountOf cfg (postFill cfg db s _)).withdrawnTotal -
        ((Keyed.put _ _ _).map Position.cost).sum =
      _ - _ + (winningShares db + 0) - -ledgerTotal _ (postFill cfg db s _).ledger
    rw [hr, hw, hlw, hsum Position.cost (zero_mul _)]
    unfold globalExposure withdrawals at hold
    linarith
  · show (accountOf cfg (postFill cfg db s _)).realizedPnlTotal =
      ((Keyed.put _ _ _).map Position.realizedPnl).sum
    rw [hr, hsum Position.realizedPnl rfl, fill_realized, h.positions]
    unfold realizedOfPositions
    ring
  · show (accountOf cfg (postFill cfg db s _)).realizedPnlTotal =
      ((db.paperOrders ++ [_]).map _).sum +
      ((Keyed.put _ _ _).map fun p : Position => p.settlementRealizedPnl.getD 0).sum
    rw [hr, hsum (fun p => p.settlementRealizedPnl.getD 0) rfl, hfs, h.parts,
      List.map_append, List.sum_append]
    unfold realizedOfOrders realizedOfSettlements
    simp only [List.map_cons, List.map_nil, List.sum_cons, List.sum_nil, filledOrder]
    ring
  · exact hr.trans (by rw [h.ledger]; exact hl.symm)
  · refine hw.trans (h.withdrawn.trans ?_)
    unfold withdrawals
    exact congrArg Neg.neg hlw.symm

theorem Conserved.settled (h : Conserved cfg db) (ht : Tables db) {p : Position}
    {st : Settlement} (now : Time) (hp : p ∈ db.positions) (hopen : p.isOpen = true) :
    Conserved cfg (settlePosition cfg now db (p, st)) := by
  have hnone : p.settlementRealizedPnl = none := by
    refine h.unsettled p hp ?_
    unfold Position.isOpen at hopen
    simpa using (Bool.and_eq_true_iff.mp hopen).2
  have hsum := sum_put_stored ht.positionKeys hp (rfl : (p.settle st now).key = p.key)
  have hr : (accountOf cfg (postSettlement cfg db p st)).realizedPnlTotal =
      (accountOf cfg db).realizedPnlTotal + settlementPnl p st := posted_realized _ _ _ _
  have hw : (accountOf cfg (postSettlement cfg db p st)).withdrawnTotal =
      (accountOf cfg db).withdrawnTotal :=
    posted_withdrawn _ _ _ _
  have hl : ledgerTotal .realizedPnl (postSettlement cfg db p st).ledger =
      ledgerTotal .realizedPnl db.ledger + settlementPnl p st := posted_ledger _ _ _ _ .realizedPnl
  have hlw : ledgerTotal .profitWithdrawal (postSettlement cfg db p st).ledger =
      ledgerTotal .profitWithdrawal db.ledger :=
      (posted_ledger _ _ _ _ .profitWithdrawal).trans (add_zero _)
  rw [settlePosition_eq]
  refine ⟨?_, ?_, ?_, ?_, ?_, ?_, ?_⟩
  · intro q hq
    rcases Keyed.mem_put_of Position.key hq with rfl | hq
    · exact le_refl _
    · exact h.quantity_nonneg q hq
  · intro q hq hs
    rcases Keyed.mem_put_of Position.key hq with rfl | hq
    · cases hs
    · exact h.unsettled q hq hs
  · have hold := h.cash
    rw [winningShares_log]
    show (accountOf cfg (postSettlement cfg db p st)).realizedPnlTotal -
        (accountOf cfg (postSettlement cfg db p st)).withdrawnTotal -
        ((Keyed.put _ _ _).map Position.cost).sum =
      sellProceeds db - buyOutlay db + (winningShares db + p.quantity * settlePrice p st) -
        -ledgerTotal _ (postSettlement cfg db p st).ledger
    rw [hr, hw, hlw, hsum Position.cost]
    unfold globalExposure withdrawals at hold
    unfold Position.settle Position.cost settlementPnl
    unfold Position.cost at hold
    linarith
  · show (accountOf cfg (postSettlement cfg db p st)).realizedPnlTotal =
      ((Keyed.put _ _ _).map Position.realizedPnl).sum
    rw [hr, hsum Position.realizedPnl, h.positions]
    unfold realizedOfPositions Position.settle
    ring
  · show (accountOf cfg (postSettlement cfg db p st)).realizedPnlTotal = realizedOfOrders db +
      ((Keyed.put _ _ _).map fun p : Position => p.settlementRealizedPnl.getD 0).sum
    rw [hr, hsum (fun p => p.settlementRealizedPnl.getD 0), h.parts, hnone]
    unfold realizedOfSettlements Position.settle
    simp only [Option.getD_some, Option.getD_none]
    ring
  · exact hr.trans (by rw [h.ledger]; exact hl.symm)
  · refine hw.trans (h.withdrawn.trans ?_)
    unfold withdrawals
    exact congrArg Neg.neg hlw.symm

theorem Conserved.swept (h : Conserved cfg db) (limit amount : ℚ) :
    Conserved cfg (postWithdrawal (withAccount cfg db) (accountOf cfg db) limit amount) := by
  have hr : (accountOf cfg
      (postWithdrawal (withAccount cfg db) (accountOf cfg db) limit amount)).realizedPnlTotal =
      (accountOf cfg db).realizedPnlTotal := rfl
  have hw : (accountOf cfg
      (postWithdrawal (withAccount cfg db) (accountOf cfg db) limit amount)).withdrawnTotal =
      (accountOf cfg db).withdrawnTotal + amount := rfl
  have hl : ∀ kind, ledgerTotal kind
      (postWithdrawal (withAccount cfg db) (accountOf cfg db) limit amount).ledger =
      ledgerTotal kind db.ledger + if kind = .profitWithdrawal then -amount else 0 := by
    intro kind
    show ledgerTotal kind (db.ledger ++ [_]) = _
    rw [ledgerTotal_snoc]
    cases kind <;> rfl
  have hwin : winningShares (postWithdrawal (withAccount cfg db) (accountOf cfg db) limit amount) =
      winningShares db := by
    unfold postWithdrawal
    rw [winningShares_log]
    exact add_zero _
  have hwd : withdrawals (postWithdrawal (withAccount cfg db) (accountOf cfg db) limit amount) =
      withdrawals db + amount := by
    unfold withdrawals
    rw [hl, if_pos rfl]
    ring
  refine ⟨h.quantity_nonneg, h.unsettled, ?_, hr.trans h.positions, hr.trans h.parts, ?_, ?_⟩
  · have := h.cash
    rw [hr, hw, hwin, hwd]
    show _ - _ - globalExposure db = sellProceeds db - buyOutlay db + _ - _
    linarith
  · rw [hr, hl, if_neg (by decide), add_zero]
    exact h.ledger
  · rw [hw, hwd, h.withdrawn]

theorem Conserved.effect {db' : Db} (ht : Tables db)
    (h : Conserved cfg db) (he : Effect cfg db db') :
    Conserved cfg db' := by
  cases he with
  | same hs => exact h.same hs
  | detected | deferred =>
    exact ⟨h.quantity_nonneg, h.unsettled, h.cash, h.positions, h.parts, h.ledger, h.withdrawn⟩
  | missed s reason now book held => exact h.missed s reason now book
  | filled s plan now retrievedAt fill snapshot fee marketFee guard =>
    exact h.filled now retrievedAt snapshot marketFee guard
  | settled p st now mem isOpen settlement => exact h.settled ht now mem isOpen
  | swept limit amount => exact h.swept limit amount

end

/-! ## The theorem -/

theorem SysRun.conserved {pw : Py.DecPow} {tx : Py.Text} {cfg : Settings} {t0 : Time}
    {tr : List (Event × Sys)} {s : Sys} (h : SysRun pw tx cfg t0 tr s) : Conserved s.cfg s.db :=
  (h.books_inv (fun _ => True) Conserved (conserved_empty cfg)
    (fun _ _ _ ht hi he => hi.effect ht he)
    (fun _ cfg' _ _ _ hi => hi.settings cfg') trivial fun _ _ => trivial).2

/-- The cash equation and the four records of realized P&L, in every state of every run. -/
theorem portfolio_conservation (pw : Py.DecPow) (tx : Py.Text) (cfg : Settings) (t0 : Time)
    (tr : List (Event × Sys)) (s : Sys) (h : SysRun pw tx cfg t0 tr s) :
    let account := accountOf s.cfg s.db
    account.balance - globalExposure s.db =
        account.startingBankrollUsd - buyOutlay s.db + sellProceeds s.db + winningShares s.db -
          withdrawals s.db ∧
      account.realizedPnlTotal = realizedOfPositions s.db ∧
      account.realizedPnlTotal = realizedOfOrders s.db + realizedOfSettlements s.db ∧
      account.realizedPnlTotal = ledgerTotal .realizedPnl s.db.ledger ∧
      account.startingBankrollUsd + (s.db.ledger.map BankrollLedgerEntry.amount).sum =
        account.balance := by
  have hc := h.conserved
  refine ⟨?_, hc.positions, hc.parts, hc.ledger, ?_⟩
  · have := hc.cash
    unfold BankrollAccount.balance
    linarith
  · have hw := hc.withdrawn
    unfold withdrawals at hw
    unfold BankrollAccount.balance
    rw [ledger_split, ← hc.ledger]
    linarith

/-- A BUY of twenty shares, a SELL of ten with a fee, and a settlement that pays for the rest. -/
def tradeAndSettle : List Command :=
  enrol ++ [.ingestTrade (sampleTrade 1 "a" 1 .buy 0), .ingestTrade (sampleTrade 2 "b" 1 .sell 0)] ++
    startCycle ++ [.tick 30] ++ fillNext "0.5" (feeRate "0.01") ++
      fillNext "0.9" (feeRate "0.02") ++ endCycle ++
    [.resolve 1 "Yes"] ++ startCycle ++ endCycle

theorem portfolio_conservation_tradeAndSettle :
    (outcome liveSettings tradeAndSettle).db.paperOrders.length = 2 ∧
    (outcome liveSettings tradeAndSettle).db.ledger.length = 2 ∧
    (accountOf (outcome liveSettings tradeAndSettle).cfg
      (outcome liveSettings tradeAndSettle).db).realizedPnlTotal =
      ledgerTotal .realizedPnl (outcome liveSettings tradeAndSettle).db.ledger :=
  ⟨by decide +kernel, by decide +kernel,
    (portfolio_conservation _ _ _ _ _ _ (history_run (by decide +kernel))).2.2.2.1⟩

end Polycopy
