import Mathlib.Data.List.Sort
import Polycopy.Accounting.Window
import Polycopy.Lib.Grouped
import Polycopy.Scoring.Score

/-!
# The scoring snapshot

`build_wallet_stats` of `scoring/service.py`: the accounting of a wallet, the time
of each decision from a query of its own, and the bounds of its history.
-/

namespace Polycopy

/-- The first trade in each settled market, as a dictionary. -/
def decisionTimes (order : RowOrder) (db : Db) (walletId : Nat)
    (settled : List String) : List (String × Time) :=
  if settled = [] then []
  else
    Grouped.dict (order.rows (firstTimes (fun tm : Trade × Market => tm.2.conditionId)
      (fun tm => tm.1.tradedAt)
      ((tradedMarkets db fun t => t.walletId = walletId).filter fun tm =>
        decide (tm.2.conditionId ∈ settled))))

/-- Each settled market with the time it was decided. -/
def settledPnl (decisions : List (String × Time))
    (markets : List MarketAccounting) : List (Time × ℚ) :=
  markets.filterMap fun m =>
    if m.resolved then
      m.realizedPnl.bind fun pnl => (Tally.get m.marketKey decisions).map fun ts => (ts, pnl)
    else
      none

def buildWalletStats (order : RowOrder) (fee : FeeColumn) (db : Db) (wallet : Wallet)
    (now : Time) : WalletStats :=
  let acct := computeWalletAccounting order fee db wallet
  let settledConditionIds :=
    (acct.markets.filter MarketAccounting.resolved).map MarketAccounting.marketKey
  let decided := settledPnl (decisionTimes order db wallet.id settledConditionIds) acct.markets
  let bounds := (order.rows
    ((db.trades.filter fun t => t.walletId = wallet.id).map Trade.tradedAt)).mergeSort (· ≤ ·)
  { realizedPnl := acct.summary.realizedPnl
    settledMarketCount := acct.summary.settledMarketCount
    tradeCount := acct.summary.tradeCount
    grossProfit := acct.summary.grossProfit
    grossLoss := acct.summary.grossLoss
    perMarketPnl := acct.markets.filterMap fun m => if m.resolved then m.realizedPnl else none
    weeklyPnl := bucketWeekly decided
    recent30dPnl := recentPnl decided now 30
    firstTradeAt := bounds.head?
    lastTradeAt := bounds.getLast? }

/-! ## Decision times -/

theorem get_decisionTimes {db : Db} (order : RowOrder) (walletId : Nat)
    {settled : List String} {conditionId : String} (h : conditionId ∈ settled) :
    Tally.get conditionId (decisionTimes order db walletId settled) =
      db.firstTrade walletId conditionId := by
  have hnodup := Tally.fold_nodup (fun tm : Trade × Market => tm.2.conditionId)
    (fun o tm => o.elim tm.1.tradedAt fun t => min t tm.1.tradedAt)
    ((tradedMarkets db fun t => t.walletId = walletId).filter fun tm =>
      decide (tm.2.conditionId ∈ settled))
  have hperm := order.perm
    (firstTimes (fun tm : Trade × Market => tm.2.conditionId) (fun tm => tm.1.tradedAt)
      ((tradedMarkets db fun t => t.walletId = walletId).filter fun tm =>
        decide (tm.2.conditionId ∈ settled)))
  unfold decisionTimes
  rw [if_neg (List.ne_nil_of_mem h),
    Grouped.dict_of_nodup ((hperm.map Prod.fst).nodup_iff.mpr hnodup)]
  have hget : Tally.get conditionId
      (order.rows (firstTimes (fun tm : Trade × Market => tm.2.conditionId)
      (fun tm => tm.1.tradedAt) ((tradedMarkets db fun t => t.walletId = walletId).filter fun tm =>
        decide (tm.2.conditionId ∈ settled)))) =
      Tally.get conditionId (firstTimes (fun tm : Trade × Market => tm.2.conditionId)
        (fun tm => tm.1.tradedAt)
        ((tradedMarkets db fun t => t.walletId = walletId).filter fun tm =>
          decide (tm.2.conditionId ∈ settled))) :=
    congrArg (Option.map Prod.snd) (Keyed.find_perm Prod.fst conditionId hnodup hperm.symm).symm
  rw [hget, get_firstTimes, List.filter_filter]
  unfold Db.firstTrade
  congr 2
  apply List.filter_congr
  intro tm _
  by_cases hc : tm.2.conditionId = conditionId
  · simp [hc, h]
  · simp [hc]

/-- A market of the accounting was traded. -/
theorem firstTrade_isSome {db : Db} (hc : db.Constrained) {order : RowOrder}
    {fee : FeeColumn} {wallet : Wallet} {m : MarketAccounting}
    (h : m ∈ (computeWalletAccounting order fee db wallet).markets) :
    (db.firstTrade wallet.id m.marketKey).isSome = true := by
  obtain ⟨tm, htm, hkey⟩ := lifetime_mem hc h
  unfold Db.firstTrade
  rw [Option.isSome_iff_ne_none, ne_eq, List.min?_eq_none_iff, List.map_eq_nil_iff]
  exact List.ne_nil_of_mem (List.mem_filter.mpr ⟨htm, decide_eq_true hkey⟩)

theorem lifetime_pnl {order : RowOrder} {fee : FeeColumn} {db : Db}
    {wallet : Wallet} {m : MarketAccounting}
    (h : m ∈ (computeWalletAccounting order fee db wallet).markets) :
    m.realizedPnl = if m.resolved then some m.pnl else none := by
  obtain ⟨kv, -, rfl⟩ := List.mem_map.mp h
  cases (Tally.get kv.1
    (winners (order.rows (accountRows db fun t => t.walletId = wallet.id)))).getD none <;> rfl

/-! ## The snapshot by market -/

theorem filterMap_resolved {β : Type} {markets : List MarketAccounting}
    {f : MarketAccounting → Option β} {g : MarketAccounting → β}
    (h : ∀ m ∈ markets, f m = if m.resolved then some (g m) else none) :
    markets.filterMap f = (markets.filter MarketAccounting.resolved).map g := by
  induction markets with
  | nil => rfl
  | cons m markets ih =>
    have hrest := ih fun m' hm' => h m' (List.mem_cons_of_mem _ hm')
    rw [List.filter_cons]
    split
    · next hr =>
      rw [List.filterMap_cons_some (by rw [h m List.mem_cons_self, if_pos hr]), List.map_cons, hrest]
    · next hr => rw [List.filterMap_cons_none (by rw [h m List.mem_cons_self, if_neg hr]), hrest]

/-- When a market was decided, with its result. -/
def decidedPnl (db : Db) (walletId : Nat) (m : MarketAccounting) : Time × ℚ :=
  ((db.firstTrade walletId m.marketKey).getD 0, m.pnl)

theorem settledPnl_eq {db : Db} (hc : db.Constrained) (order : RowOrder)
    (fee : FeeColumn) (wallet : Wallet) :
    settledPnl (decisionTimes order db wallet.id
        (((computeWalletAccounting order fee db wallet).markets.filter
          MarketAccounting.resolved).map MarketAccounting.marketKey))
        (computeWalletAccounting order fee db wallet).markets =
      ((computeWalletAccounting order fee db wallet).markets.filter MarketAccounting.resolved).map
        (decidedPnl db wallet.id) := by
  apply filterMap_resolved
  intro m hm
  by_cases hr : m.resolved
  · have hkey : m.marketKey ∈ ((computeWalletAccounting order fee db wallet).markets.filter
        MarketAccounting.resolved).map MarketAccounting.marketKey :=
      List.mem_map_of_mem (List.mem_filter.mpr ⟨hm, hr⟩)
    obtain ⟨first, hfirst⟩ := Option.isSome_iff_exists.mp (firstTrade_isSome hc hm)
    rw [if_pos hr, if_pos hr, lifetime_pnl hm, if_pos hr, get_decisionTimes order wallet.id hkey]
    unfold decidedPnl
    rw [hfirst]
    rfl
  · rw [if_neg hr, if_neg hr]

theorem perMarketPnl_eq (order : RowOrder) (fee : FeeColumn) (db : Db)
    (wallet : Wallet) (now : Time) :
    (buildWalletStats order fee db wallet now).perMarketPnl =
      ((computeWalletAccounting order fee db wallet).markets.filter MarketAccounting.resolved).map
        MarketAccounting.pnl := by
  apply filterMap_resolved
  intro m hm
  rw [lifetime_pnl hm]
  split <;> rfl

/-! ## The score of collections -/

theorem concentration_perm {l l' : List ℚ} (h : l.Perm l') :
    concentration l = concentration l' := by
  have hpos := h.filter fun p => 0 < p
  have hnil : l.filter (fun p => 0 < p) = [] ↔ l'.filter (fun p => 0 < p) = [] := by
    rw [← List.length_eq_zero_iff, hpos.length_eq, List.length_eq_zero_iff]
  unfold concentration
  dsimp only
  rw [hpos.sum_eq, hpos.foldr_eq]
  simp only [hnil]

theorem consistency_perm {l l' : List ℚ} (h : l.Perm l') : consistency l = consistency l' := by
  have hactive := h.filter fun w => w ≠ 0
  have hnil : l.filter (fun w => w ≠ 0) = [] ↔ l'.filter (fun w => w ≠ 0) = [] := by
    rw [← List.length_eq_zero_iff, hactive.length_eq, List.length_eq_zero_iff]
  unfold consistency
  dsimp only
  rw [hactive.countP_eq, hactive.length_eq]
  simp only [hnil]

/-- The lists of a snapshot are read as collections. -/
theorem scoreWallet_perm (stats : WalletStats) {perMarket weekly : List ℚ}
    (hp : perMarket.Perm stats.perMarketPnl) (hw : weekly.Perm stats.weeklyPnl) (now : Time) :
    scoreWallet { stats with perMarketPnl := perMarket, weeklyPnl := weekly } now =
      scoreWallet stats now := by
  have hgates : checkGates { stats with perMarketPnl := perMarket, weeklyPnl := weekly } now =
    checkGates stats now := rfl
  have hcomponents : componentsOf { stats with perMarketPnl := perMarket, weeklyPnl := weekly } =
      componentsOf stats := by
    unfold componentsOf
    dsimp only
    rw [concentration_perm hp, consistency_perm hw]
  unfold scoreWallet
  dsimp only
  rw [hgates, hcomponents, concentration_perm hp]

theorem recentPnl_perm {l l' : List (Time × ℚ)} (h : l.Perm l') (now : Time) (days : Nat) :
    recentPnl l now days = recentPnl l' now days := ((h.filter _).map _).sum_eq

theorem bucketWeekly_perm {l l' : List (Time × ℚ)} (h : l.Perm l') :
    (bucketWeekly l).Perm (bucketWeekly l') :=
  (Tally.totals_perm _ _ h).map _

theorem bucketWeekly_sum (l : List (Time × ℚ)) : (bucketWeekly l).sum = (l.map Prod.snd).sum :=
  Tally.totals_sum _ _ l

/-! ## Sums -/

/-- Profit and loss add up to the result. -/
theorem gross_sum (markets : List MarketAccounting) :
    (summarize markets).grossProfit - (summarize markets).grossLoss =
      (summarize markets).realizedPnl := by
  unfold summarize
  dsimp only
  rw [sub_neg_eq_add]
  induction markets.filter MarketAccounting.resolved with
  | nil => exact add_zero 0
  | cons m ms ih =>
    rw [List.filter_cons, List.filter_cons, List.map_cons, List.sum_cons, ← ih]
    rcases lt_trichotomy m.pnl 0 with h | h | h
    · simp [h, h.not_gt]
      ring
    · simp [h]
    · simp [h, h.not_gt]
      ring

theorem grossProfit_nonneg (markets : List MarketAccounting) :
    0 ≤ (summarize markets).grossProfit := by
  apply List.sum_nonneg
  intro q hq
  obtain ⟨m, hm, rfl⟩ := List.mem_map.mp hq
  exact (of_decide_eq_true (List.mem_filter.mp hm).2).le

theorem grossLoss_nonneg (markets : List MarketAccounting) : 0 ≤ (summarize markets).grossLoss := by
  unfold summarize
  dsimp only
  rw [List.sum_neg]
  apply List.sum_nonneg
  intro q hq
  obtain ⟨pnl, hpnl, rfl⟩ := List.mem_map.mp hq
  obtain ⟨m, hm, rfl⟩ := List.mem_map.mp hpnl
  exact neg_nonneg.mpr (of_decide_eq_true (List.mem_filter.mp hm).2).le

/-- Two orders of the same rows, as an accounting. -/
theorem compute_perm {db : Db} (hc : db.Constrained) (order order' : RowOrder)
    (fee : FeeColumn) (wallet : Wallet) :
    SameResults (computeWalletAccounting order fee db wallet).markets
      (computeWalletAccounting order' fee db wallet).markets :=
  assemble_perm fee wallet ((accountRows_coherent hc _).perm (order.perm _))
    ((order.perm _).trans (order'.perm _).symm)

/-- Two snapshots of one database differ in the order of their lists only. -/
theorem buildWalletStats_perm {db : Db} (hc : db.Constrained)
    (order order' : RowOrder) (fee : FeeColumn) (wallet : Wallet) (now : Time) :
    ∃ perMarket weekly, perMarket.Perm (buildWalletStats order' fee db wallet now).perMarketPnl ∧
      weekly.Perm (buildWalletStats order' fee db wallet now).weeklyPnl ∧
      buildWalletStats order fee db wallet now =
        { buildWalletStats order' fee db wallet now with
          perMarketPnl := perMarket, weeklyPnl := weekly } := by
  have hsame := compute_perm hc order order' fee wallet
  have hsummary : (computeWalletAccounting order fee db wallet).summary =
      (computeWalletAccounting order' fee db wallet).summary := hsame.summarize_eq
  have hper := hsame.map_perm (p := MarketAccounting.resolved)
    (fun hab => hab.resolved) SameResults.pnl_eq
  have hdecided := hsame.map_perm (p := MarketAccounting.resolved) (g := decidedPnl db wallet.id)
    (fun hab => hab.resolved) fun hab => by
      unfold decidedPnl
      rw [hab.marketKey, SameResults.pnl_eq hab]
  have hbounds : ∀ times : List Time, (order.rows times).mergeSort (· ≤ ·) =
      (order'.rows times).mergeSort (· ≤ ·) := by
    intro times
    apply List.Perm.eq_of_sortedLE List.sortedLE_mergeSort List.sortedLE_mergeSort
    exact (List.mergeSort_perm _ _).trans ((order.perm times).trans
      ((order'.perm times).symm.trans (List.mergeSort_perm _ _).symm))
  refine ⟨(buildWalletStats order fee db wallet now).perMarketPnl,
    (buildWalletStats order fee db wallet now).weeklyPnl, ?_, ?_, ?_⟩
  · rw [perMarketPnl_eq, perMarketPnl_eq]
    exact hper
  · unfold buildWalletStats
    dsimp only
    rw [settledPnl_eq hc, settledPnl_eq hc]
    exact bucketWeekly_perm hdecided
  · unfold buildWalletStats
    dsimp only
    rw [settledPnl_eq hc, settledPnl_eq hc, hsummary, hbounds, recentPnl_perm hdecided]

/-- **The order of the rows does not show**: not in the summary, the results by market
or the score; and the four ways to add up the results agree. -/
theorem accounting_orderIndependent {db : Db} (hc : db.Constrained)
    (fee : FeeColumn) (wallet : Wallet) :
    (∀ rows rows' : List AccountRow, rows.Perm (accountRows db fun t => t.walletId = wallet.id) →
      rows'.Perm rows →
      SameResults (assembleWalletAccounting fee wallet rows').markets
        (assembleWalletAccounting fee wallet rows).markets ∧
      (assembleWalletAccounting fee wallet rows').summary =
        (assembleWalletAccounting fee wallet rows).summary) ∧
    (∀ order order' now, scoreWallet (buildWalletStats order fee db wallet now) now =
      scoreWallet (buildWalletStats order' fee db wallet now) now) ∧
    ∀ order now,
      let stats := buildWalletStats order fee db wallet now
      let resolved :=
      (computeWalletAccounting order fee db wallet).markets.filter MarketAccounting.resolved
      stats.perMarketPnl.sum = stats.realizedPnl ∧ stats.weeklyPnl.sum = stats.realizedPnl ∧
      stats.grossProfit - stats.grossLoss = stats.realizedPnl ∧
      0 ≤ stats.grossProfit ∧ 0 ≤ stats.grossLoss ∧
      stats.recent30dPnl = ((resolved.filter fun m =>
        (db.firstTrade wallet.id m.marketKey).any fun first =>
          now - 30 * 86400 ≤ first).map MarketAccounting.pnl).sum := by
  refine ⟨fun rows rows' hrows hrows' => ?_, fun order order' now => ?_, fun order now => ?_⟩
  · have hco := ((accountRows_coherent hc _).perm hrows).perm hrows'
    exact ⟨assemble_perm fee wallet hco hrows', assemble_summary fee wallet hco hrows'⟩
  · obtain ⟨perMarket, weekly, hper, hweekly, heq⟩ :=
      buildWalletStats_perm hc order order' fee wallet now
    rw [heq]
    exact scoreWallet_perm _ hper hweekly now
  · intro stats resolved
    have hper : stats.perMarketPnl.sum = stats.realizedPnl := by
      rw [perMarketPnl_eq]
      rfl
    have hweekly : stats.weeklyPnl.sum = stats.realizedPnl := by
      dsimp only [stats, buildWalletStats]
      rw [settledPnl_eq hc, bucketWeekly_sum, List.map_map]
      rfl
    refine ⟨hper, hweekly, gross_sum _, grossProfit_nonneg _, grossLoss_nonneg _, ?_⟩
    dsimp only [stats, buildWalletStats, recentPnl]
    rw [settledPnl_eq hc, List.filter_map, List.map_map]
    have hfilter : resolved.filter ((fun d : Time × ℚ => decide (now - (30 : Nat) * 86400 ≤ d.1)) ∘
        decidedPnl db wallet.id) =
        resolved.filter fun m => (db.firstTrade wallet.id m.marketKey).any fun first =>
        now - 30 * 86400 ≤ first := by
      apply List.filter_congr
      intro m hm
      obtain ⟨first, hfirst⟩ :=
        Option.isSome_iff_exists.mp (firstTrade_isSome hc (List.mem_filter.mp hm).1)
      simp [decidedPnl, hfirst]
    rw [hfilter]
    rfl

theorem accounting_orderIndependent_two :
    let wallet : Wallet := ⟨7, "0x7", .discovered, none⟩
    let stats := fun order : RowOrder =>
    buildWalletStats order (fun _ => none) twoMarkets wallet 8640000
    twoMarkets.Constrained ∧ scoreWallet (stats RowOrder.stored) 8640000 =
      scoreWallet (stats RowOrder.newestFirst) 8640000 ∧
      (stats RowOrder.newestFirst).perMarketPnl = [5 / 2, 3] := by
  have hc : twoMarkets.Constrained := ⟨by decide, by decide, by decide⟩
  exact ⟨hc, (accounting_orderIndependent hc (fun _ => none)
    ⟨7, "0x7", .discovered, none⟩).2.1 RowOrder.stored
    RowOrder.newestFirst 8640000, by decide +kernel⟩

end Polycopy
