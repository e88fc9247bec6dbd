import Mathlib.Algebra.Order.BigOperators.Group.List
import Mathlib.Tactic.Linarith
import Polycopy.Accounting.RowOrder

/-!
# The decision window

A market belongs to the window when its first trade does, and brings all its
legs.  So the accounting of the window is the lifetime accounting with some of
the markets left out, whatever the two queries look like.
-/

namespace Polycopy

/-! ## First trades -/

/-- When the wallet first traded in a market. -/
def Db.firstTrade (db : Db) (walletId : Nat) (conditionId : String) : Option Time :=
  (((tradedMarkets db fun t => t.walletId = walletId).filter fun tm =>
    tm.2.conditionId = conditionId).map fun tm => tm.1.tradedAt).min?

def Db.decidedIn (db : Db) (walletId : Nat) (cutoff now : Time) (conditionId : String) : Bool :=
  (db.firstTrade walletId conditionId).any fun first => cutoff ≤ first && first ≤ now

theorem get_firstTimes {α κ : Type} [DecidableEq κ] (key : α → κ)
    (tradedAt : α → Time) (rows : List α) (k : κ) :
    Tally.get k (firstTimes key tradedAt rows) =
      ((rows.filter fun a => key a = k).map tradedAt).min? := by
  have hsome : ∀ (l : List α) (t : Time),
      l.foldl (fun o a => some (o.elim (tradedAt a) fun t => min t (tradedAt a))) (some t) =
        some ((l.map tradedAt).foldl min t) := by
    intro l
    induction l with
    | nil => exact fun _ => rfl
    | cons a l ih => exact fun t => ih (min t (tradedAt a))
  unfold firstTimes
  rw [Tally.get_fold]
  cases rows.filter fun a => key a = k with
  | nil => rfl
  | cons a l => exact hsome l (tradedAt a)

theorem mem_decidedMarkets {db : Db} {walletId : Nat} {cutoff now : Time} {marketId : Nat} :
    marketId ∈ decidedMarkets db walletId cutoff now ↔
      ∃ first, (((db.trades.filter fun t => t.walletId = walletId).filter fun t =>
        t.marketId = marketId).map
        Trade.tradedAt).min? = some first ∧ cutoff ≤ first ∧ first ≤ now := by
  unfold decidedMarkets
  rw [← get_firstTimes]
  constructor
  · intro h
    obtain ⟨kv, hkv, rfl⟩ := List.mem_map.mp h
    obtain ⟨hmem, hwindow⟩ := List.mem_filter.mp hkv
    exact ⟨kv.2, Tally.get_of_mem (Tally.fold_nodup _ _ _) hmem, by simpa using hwindow⟩
  · rintro ⟨first, hget, hwindow⟩
    exact List.mem_map.mpr ⟨(marketId, first),
      List.mem_filter.mpr ⟨Tally.mem_of_get hget, by simpa using hwindow⟩, rfl⟩

theorem decidedIn_iff {db : Db} {walletId : Nat} {cutoff now : Time} {conditionId : String} :
    db.decidedIn walletId cutoff now conditionId = true ↔
      ∃ first, db.firstTrade walletId conditionId = some first ∧ cutoff ≤ first ∧ first ≤ now := by
  unfold Db.decidedIn
  cases db.firstTrade walletId conditionId <;> simp

/-- The trades of a market by its id and by its condition id. -/
theorem trades_of_market {db : Db} (hc : db.Constrained) (selects : Trade → Bool)
    {m : Market} (hm : m ∈ db.markets) :
    ((tradedMarkets db selects).filter fun tm => tm.2.conditionId = m.conditionId).map Prod.fst =
      (db.trades.filter selects).filter fun t => t.marketId = m.id := by
  have hcond : db.markets.filter (fun m' => m'.conditionId = m.conditionId) = [m] := by
    rw [Keyed.filter_key Market.conditionId m.conditionId hc.conditionIds,
      Keyed.find_of_mem Market.conditionId hc.conditionIds hm]
    rfl
  have hinner : ∀ t : Trade,
      (((db.markets.filter fun m' => m'.id = t.marketId).map fun m' => (t, m')).filter
      fun tm : Trade × Market => tm.2.conditionId = m.conditionId).map Prod.fst =
        if t.marketId = m.id then [t] else [] := by
    intro t
    rw [List.filter_map, List.map_map]
    have hswap : (db.markets.filter fun m' => m'.id = t.marketId).filter
        ((fun tm : Trade × Market => decide (tm.2.conditionId = m.conditionId)) ∘
          fun m' => (t, m')) =
          [m].filter fun m' => m'.id = t.marketId := by
      rw [← hcond, List.filter_filter, List.filter_filter]
      exact List.filter_congr fun m' _ => Bool.and_comm _ _
    rw [hswap, List.filter_cons, List.filter_nil]
    by_cases h : m.id = t.marketId
    · simp [h]
    · simp [h, Ne.symm h]
  unfold tradedMarkets
  induction db.trades.filter selects with
  | nil => rfl
  | cons t trades ih =>
    rw [List.flatMap_cons, List.filter_append, List.map_append, ih, hinner, List.filter_cons]
    by_cases h : t.marketId = m.id <;> simp [h]

theorem firstTrade_eq {db : Db} (hc : db.Constrained) (walletId : Nat)
    {m : Market} (hm : m ∈ db.markets) :
    db.firstTrade walletId m.conditionId =
      (((db.trades.filter fun t => t.walletId = walletId).filter fun t => t.marketId = m.id).map
        Trade.tradedAt).min? := by
  unfold Db.firstTrade
  rw [← trades_of_market hc (fun t => t.walletId = walletId) hm, List.map_map]
  rfl

/-- The grouped query selects the markets decided in the window. -/
theorem decidedMarkets_iff {db : Db} (hc : db.Constrained) {walletId : Nat}
    {cutoff now : Time} {m : Market} (hm : m ∈ db.markets) :
    m.id ∈ decidedMarkets db walletId cutoff now ↔
    db.decidedIn walletId cutoff now m.conditionId = true := by
  rw [mem_decidedMarkets, ← firstTrade_eq hc walletId hm, decidedIn_iff]

theorem decidedIn_mono {db : Db} {walletId : Nat} {cutoff cutoff' now : Time}
    (h : cutoff' ≤ cutoff) {conditionId : String}
    (hd : db.decidedIn walletId cutoff now conditionId = true) :
    db.decidedIn walletId cutoff' now conditionId = true := by
  obtain ⟨first, hfirst, hcutoff, hnow⟩ := decidedIn_iff.mp hd
  exact decidedIn_iff.mpr ⟨first, hfirst, h.trans hcutoff, hnow⟩

/-! ## The rows of the window -/

theorem assemble_filter (fee : FeeColumn) (wallet : Wallet)
    (p : String → Bool) (rows : List AccountRow) :
    (assembleWalletAccounting fee wallet (rows.filter fun r => p r.conditionId)).markets =
      (assembleWalletAccounting fee wallet rows).markets.filter fun m => p m.marketKey := by
  have hlegs : legsByMarket fee (rows.filter fun r => p r.conditionId) =
      (legsByMarket fee rows).filter fun kv => p kv.1 := Tally.fold_filter _ _ p rows
  have hwinners : winners (rows.filter fun r => p r.conditionId) =
      (winners rows).filter fun kv => p kv.1 :=
    Tally.fold_filter _ _ p rows
  unfold assembleWalletAccounting
  rw [hlegs, hwinners, List.filter_map]
  have hkeys : ((fun m : MarketAccounting => p m.marketKey) ∘ fun kv : String × List TradeLeg =>
      accountMarket kv.1 kv.2 ((Tally.get kv.1 (winners rows)).getD none)) = fun kv => p kv.1 :=
    funext fun kv => congrArg p (accountMarket_key kv.1 kv.2 _)
  rw [hkeys]
  apply List.map_congr_left
  intro kv hkv
  rw [Tally.get_filter, if_pos (List.mem_filter.mp hkv).2]

/-- The second query returns the rows of the markets decided in the window. -/
theorem window_rows {db : Db} (hc : db.Constrained) (order : RowOrder) (fee : FeeColumn)
    (wallet : Wallet) (now : Time) (days : Nat) :
    ∃ rows, rows.Perm ((accountRows db fun t => t.walletId = wallet.id).filter fun r =>
        db.decidedIn wallet.id (now - days * 86400) now r.conditionId) ∧
      computeWalletAccountingForDecisionWindow order fee db wallet now days =
        assembleWalletAccounting fee wallet rows := by
  have hids := order.perm (decidedMarkets db wallet.id (now - days * 86400) now)
  have hwhere : accountRows db (fun t => t.walletId = wallet.id &&
      decide (t.marketId ∈ order.rows (decidedMarkets db wallet.id (now - days * 86400) now))) =
        (accountRows db fun t => t.walletId = wallet.id).filter fun r =>
          db.decidedIn wallet.id (now - days * 86400) now r.conditionId := by
    rw [accountRows_eq hc.settledOnce, accountRows_eq hc.settledOnce,
      tradedMarkets_filter, List.filter_map]
    refine congrArg _ (List.filter_congr fun tm htm => ?_)
    obtain ⟨-, -, hm, hid⟩ := mem_tradedMarkets.mp htm
    rw [Bool.eq_iff_iff, decide_eq_true_eq, hids.mem_iff, ← hid, decidedMarkets_iff hc hm]
    rfl
  unfold computeWalletAccountingForDecisionWindow
  dsimp only
  split
  · next hnil =>
    refine ⟨[], List.Perm.of_eq ?_, rfl⟩
    rw [← hwhere, hnil]
    unfold accountRows tradedMarkets
    simp
  · exact ⟨_, (order.perm _).trans (List.Perm.of_eq hwhere), rfl⟩

/-- The window's results are lifetime results. -/
theorem window_results {db : Db} (hc : db.Constrained) (order order' : RowOrder)
    (fee : FeeColumn) (wallet : Wallet) (now : Time) (days : Nat) :
    SameResults (computeWalletAccountingForDecisionWindow order' fee db wallet now days).markets
      ((computeWalletAccounting order fee db wallet).markets.filter fun m =>
        db.decidedIn wallet.id (now - days * 86400) now m.marketKey) := by
  obtain ⟨rows, hrows, heq⟩ := window_rows hc order' fee wallet now days
  have hco := accountRows_coherent hc fun t => t.walletId = wallet.id
  have hsub : Coherent ((accountRows db fun t => t.walletId = wallet.id).filter fun r =>
      db.decidedIn wallet.id (now - days * 86400) now r.conditionId) :=
    fun r hr r' hr' => hco r (List.mem_filter.mp hr).1 r' (List.mem_filter.mp hr').1
  have hwindow := assemble_perm fee wallet (hsub.perm hrows) hrows
  rw [assemble_filter fee wallet (db.decidedIn wallet.id (now - days * 86400) now)] at hwindow
  have hlife := assemble_perm fee wallet hco (order.perm _).symm
  rw [heq]
  exact hwindow.trans (hlife.restrict _)

/-! ## Fewer markets, smaller totals -/

/-- The totals that only grow with the markets. -/
structure Summary.Le (a b : Summary) : Prop where
  settledMarketCount : a.settledMarketCount ≤ b.settledMarketCount
  openMarketCount : a.openMarketCount ≤ b.openMarketCount
  tradeCount : a.tradeCount ≤ b.tradeCount
  winningMarketCount : a.winningMarketCount ≤ b.winningMarketCount
  grossProfit : a.grossProfit ≤ b.grossProfit
  grossLoss : a.grossLoss ≤ b.grossLoss

theorem summarize_mono {ms ms' : List MarketAccounting} (h : ms.Sublist ms') :
    (summarize ms).Le (summarize ms') := by
  have hopen : ∀ l : List MarketAccounting, l.length - (l.filter MarketAccounting.resolved).length =
      (l.filter fun m => !m.resolved).length := by
    intro l
    have hlen := List.length_eq_length_filter_add (l := l) MarketAccounting.resolved
    omega
  have hresolved := h.filter MarketAccounting.resolved
  refine ⟨hresolved.length_le, ?_, (h.map _).sum_le_sum fun _ _ => Nat.zero_le _,
    hresolved.countP_le, ?_, ?_⟩
  · unfold summarize
    dsimp only
    rw [hopen, hopen]
    exact (h.filter _).length_le
  · refine ((hresolved.filter _).map _).sum_le_sum fun q hq => ?_
    obtain ⟨m, hm, rfl⟩ := List.mem_map.mp hq
    exact (of_decide_eq_true (List.mem_filter.mp hm).2).le
  · unfold summarize
    dsimp only
    rw [List.sum_neg, List.sum_neg]
    refine (((hresolved.filter _).map _).map _).sum_le_sum fun q hq => ?_
    obtain ⟨pnl, hpnl, rfl⟩ := List.mem_map.mp hq
    obtain ⟨m, hm, rfl⟩ := List.mem_map.mp hpnl
    exact neg_nonneg.mpr (of_decide_eq_true (List.mem_filter.mp hm).2).le

theorem SameResults.mem_keys {ms ms' : List MarketAccounting}
    (h : SameResults ms ms') {key : String} :
    key ∈ ms.map MarketAccounting.marketKey ↔ key ∈ ms'.map MarketAccounting.marketKey := by
  have hperm := h.map_perm (p := fun _ => true) (fun _ => rfl) fun hab => hab.marketKey
  simpa using hperm.mem_iff (a := key)

/-! ## A window over everything -/

/-- No trade of the wallet is before the cutoff, and every market it traded
was first traded by now. -/
def Db.Covered (db : Db) (walletId : Nat) (cutoff now : Time) : Prop :=
  ∀ t ∈ db.trades, t.walletId = walletId → cutoff ≤ t.tradedAt ∧
    ∃ t' ∈ db.trades, t'.walletId = walletId ∧ t'.marketId = t.marketId ∧ t'.tradedAt ≤ now

theorem decidedIn_of_covered {db : Db} (hc : db.Constrained) {walletId : Nat} {cutoff now : Time}
    (h : db.Covered walletId cutoff now) {tm : Trade × Market}
    (htm : tm ∈ tradedMarkets db fun t => t.walletId = walletId) :
    db.decidedIn walletId cutoff now tm.2.conditionId = true := by
  obtain ⟨ht, hw, hm, hid⟩ := mem_tradedMarkets.mp htm
  obtain ⟨-, t', ht', hw', hid', hnow⟩ := h tm.1 ht (of_decide_eq_true hw)
  have hmem : t'.tradedAt ∈ ((db.trades.filter fun t => t.walletId = walletId).filter fun t =>
      t.marketId = tm.2.id).map
      Trade.tradedAt := by
    refine List.mem_map_of_mem (List.mem_filter.mpr
      ⟨List.mem_filter.mpr ⟨ht', decide_eq_true hw'⟩, ?_⟩)
    exact decide_eq_true (hid'.trans hid.symm)
  cases hfirst : db.firstTrade walletId tm.2.conditionId with
  | none =>
    rw [firstTrade_eq hc walletId hm, List.min?_eq_none_iff] at hfirst
    rw [hfirst] at hmem
    cases hmem
  | some first =>
    refine decidedIn_iff.mpr ⟨first, hfirst, ?_⟩
    rw [firstTrade_eq hc walletId hm, List.min?_eq_some_iff] at hfirst
    obtain ⟨hin, hle⟩ := hfirst
    obtain ⟨t, ht, rfl⟩ := List.mem_map.mp hin
    obtain ⟨ht, -⟩ := List.mem_filter.mp ht
    obtain ⟨ht, hwt⟩ := List.mem_filter.mp ht
    exact ⟨(h t ht (of_decide_eq_true hwt)).1, (hle _ hmem).trans hnow⟩

/-- The markets of an accounting are those of its rows. -/
theorem assemble_mem {fee : FeeColumn} {wallet : Wallet}
    {rows : List AccountRow} {m : MarketAccounting}
    (h : m ∈ (assembleWalletAccounting fee wallet rows).markets) :
    ∃ r ∈ rows, r.conditionId = m.marketKey := by
  have hkey := List.mem_map_of_mem (f := MarketAccounting.marketKey) h
  rw [assemble_keys] at hkey
  exact (Tally.mem_keys _ _).mp hkey

theorem lifetime_mem {db : Db} (hc : db.Constrained) {order : RowOrder}
    {fee : FeeColumn} {wallet : Wallet} {m : MarketAccounting}
    (h : m ∈ (computeWalletAccounting order fee db wallet).markets) :
    ∃ tm ∈ tradedMarkets db fun t => t.walletId = wallet.id, tm.2.conditionId = m.marketKey := by
  obtain ⟨r, hr, hkey⟩ := assemble_mem h
  rw [(order.perm _).mem_iff, accountRows_eq hc.settledOnce] at hr
  obtain ⟨tm, htm, rfl⟩ := List.mem_map.mp hr
  exact ⟨tm, htm, hkey⟩

/-- One market first traded long ago and again today, one first traded this week. -/
def twoMarkets : Db :=
  { Db.empty with
    markets :=
      [⟨1, "0xa", "", .null, none, .null, true, false, none, none, none, 0⟩,
        ⟨2, "0xb", "", .null, none, .null, true, false, none, none, none, 0⟩]
    trades :=
      [⟨1, "t1", 1, 7, none, .buy, "Up", 10, 1 / 2, 0, 0⟩,
        ⟨2, "t2", 2, 7, none, .buy, "Up", 4, 1 / 4, 8208000, 0⟩,
        ⟨3, "t3", 1, 7, none, .sell, "Up", 10, 3 / 4, 8640000, 0⟩]
    settlements := [⟨1, "Up"⟩, ⟨2, "Up"⟩] }

def RowOrder.stored : RowOrder := ⟨fun l => l, fun l => List.Perm.refl l⟩

def RowOrder.newestFirst : RowOrder := ⟨List.reverse, List.reverse_perm⟩

end Polycopy
