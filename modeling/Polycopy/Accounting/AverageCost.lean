import Polycopy.Lib.Run
import Polycopy.Accounting.Pnl
import Polycopy.Schedule

/-!
# The average-cost books and cash-flow accounting agree

The paper books keep, for each outcome, a quantity, an average cost re-divided
at every BUY and the P&L realized by every SELL and by the settlement;
`account_market` sums signed cash flows and pays the winner.  What relates them
is `AverageCost`: shares are shares, and realized P&L less cost basis is cash
flow.
-/

namespace Polycopy

/-- One paper fill. -/
structure PaperFill where
  signal : Signal
  fill : Fill
  fee : ℚ

def PaperFill.leg (marketKey : String) (f : PaperFill) : TradeLeg :=
  ⟨marketKey, f.signal.outcome, f.signal.side, f.fill.filledSize, f.fill.fillPrice, f.fee⟩

def PaperFill.isOf (walletId marketId : Nat) (f : PaperFill) : Bool :=
  f.signal.walletId = walletId && f.signal.marketId = marketId

def Position.isOf (walletId marketId : Nat) (p : Position) : Bool :=
  p.walletId = walletId && p.marketId = marketId

/-- A fill buys something, or sells no more than is owned of the outcome. -/
def PaperFill.Covered (db : Db) (f : PaperFill) : Prop :=
  if f.signal.side = .buy then 0 < f.fill.filledSize
  else f.fill.filledSize ≤ ownedShares db f.signal

instance (db : Db) (f : PaperFill) : Decidable (f.Covered db) := by
  unfold PaperFill.Covered
  infer_instance

/-- The books after a covered fill. -/
def Filling (cfg : Settings) (db : Db) (f : PaperFill) (db' : Db) : Prop :=
  f.Covered db ∧ db' = (applyFill cfg db f.signal f.fill f.fee).1

/-- The legs of the wallet's fills in the market. -/
def legsOf (marketKey : String) (walletId marketId : Nat)
    (tr : List (PaperFill × Db)) : List TradeLeg :=
  ((tr.map Prod.fst).filter (PaperFill.isOf walletId marketId)).map (PaperFill.leg marketKey)

/-- The position of an outcome, and nothing when there is none. -/
def held (db : Db) (walletId marketId : Nat) (outcome : String) : ℚ :=
  ((db.position (walletId, marketId, outcome)).map Position.quantity).getD 0

theorem Position.key_eq_iff {p : Position} {walletId marketId : Nat} {outcome : String} :
    p.key = (walletId, marketId, outcome) ↔
    p.isOf walletId marketId = true ∧ p.outcome = outcome := by
  unfold Position.key Position.isOf
  simp [Prod.ext_iff, and_assoc]

/-- What the position has turned into cash so far. -/
def Position.cash (p : Position) : ℚ := p.realizedPnl - p.cost

def sumOf (walletId marketId : Nat) (f : Position → ℚ) (db : Db) : ℚ :=
  ((db.positions.filter (Position.isOf walletId marketId)).map f).sum

structure AverageCost (walletId marketId : Nat) (db : Db)
    (positions : List (String × MarketPosition)) : Prop where
  keys : (db.positions.map Position.key).Nodup
  cash : sumOf walletId marketId Position.cash db = (positions.map fun kv => kv.2.cashFlow).sum
  shares : ∀ outcome, held db walletId marketId outcome = (legPosition positions outcome).shares
  owned : ∀ p ∈ db.positions, p.isOf walletId marketId = true → 0 ≤ p.quantity ∧ p.settledAt = none

/-! ## A fill -/

theorem sumOf_eq (walletId marketId : Nat) (f : Position → ℚ) (db : Db) :
    sumOf walletId marketId f db =
      (db.positions.map fun p => if p.isOf walletId marketId then f p else 0).sum := by
  unfold sumOf
  induction db.positions with
  | nil => rfl
  | cons p l ih =>
    cases h : p.isOf walletId marketId with
    | true => simp [h, ih]
    | false => simp [h, ih]

theorem applyFill_positions (cfg : Settings) (db : Db) (s : Signal) (fill : Fill) (fee : ℚ) :
    (applyFill cfg db s fill fee).1.positions =
      Keyed.put Position.key ((positionFor db s).fill s.side fill fee) db.positions := by
  unfold applyFill Position.fill
  dsimp only
  split
  · rfl
  · rw [postRealizedPnl_frame]

theorem positionFor_isOf (db : Db) (f : PaperFill) (walletId marketId : Nat) :
    (positionFor db f.signal).isOf walletId marketId = f.isOf walletId marketId := by
  have hkey := positionFor_key db f.signal
  unfold Position.key Signal.positionKey at hkey
  obtain ⟨hw, hrest⟩ := Prod.mk.inj hkey
  unfold Position.isOf PaperFill.isOf
  rw [hw, (Prod.mk.inj hrest).1]

theorem fill_isOf (p : Position) (side : Side) (f : Fill) (fee : ℚ) (walletId marketId : Nat) :
    (p.fill side f fee).isOf walletId marketId = p.isOf walletId marketId := by
  unfold Position.fill
  split <;> rfl

/-- Shares and cash move as the leg says. -/
theorem fill_leg {db : Db} {f : PaperFill}
    (hq : 0 ≤ (positionFor db f.signal).quantity) (hc : f.Covered db) (marketKey : String) :
    ((positionFor db f.signal).fill f.signal.side f.fill f.fee).quantity =
      (positionFor db f.signal).quantity + (f.leg marketKey).signed ∧
    ((positionFor db f.signal).fill f.signal.side f.fill f.fee).cash =
      (positionFor db f.signal).cash + ((f.leg marketKey).gross - f.fee) := by
  unfold PaperFill.Covered at hc
  unfold Position.fill TradeLeg.signed TradeLeg.gross PaperFill.leg Position.cash
  dsimp only
  by_cases hs : f.signal.side = .buy
  · rw [if_pos hs] at hc
    simp only [if_pos hs]
    rw [Position.buy_cost _ _ _ _ hq hc]
    refine ⟨rfl, ?_⟩
    show (positionFor db f.signal).realizedPnl - _ = _
    ring
  · rw [if_neg hs, ownedShares_eq] at hc
    simp only [if_neg hs]
    rw [Position.sell_cost _ _ _ _ hc, Position.sell_quantity _ _ _ _ hc]
    refine ⟨sub_eq_add_neg _ _, ?_⟩
    show (positionFor db f.signal).realizedPnl + Position.sellDelta _ _ _ _ - _ = _
    rw [Position.sellDelta_eq _ _ _ _ hc]
    ring

theorem fill_nonneg {db : Db} {f : PaperFill}
    (hq : 0 ≤ (positionFor db f.signal).quantity) (hc : f.Covered db) :
    0 ≤ ((positionFor db f.signal).fill f.signal.side f.fill f.fee).quantity := by
  unfold PaperFill.Covered at hc
  unfold Position.fill
  by_cases hs : f.signal.side = .buy
  · rw [if_pos hs] at hc
    rw [if_pos hs]
    exact add_nonneg hq hc.le
  · rw [if_neg hs, ownedShares_eq] at hc
    rw [if_neg hs, Position.sell_quantity _ _ _ _ hc]
    exact sub_nonneg.mpr hc

theorem held_filled (db db' : Db) (f : PaperFill)
    (h : db'.positions = Keyed.put Position.key
      ((positionFor db f.signal).fill f.signal.side f.fill f.fee) db.positions)
    (walletId marketId : Nat) (outcome : String) :
    held db' walletId marketId outcome =
      if f.isOf walletId marketId = true ∧ f.signal.outcome = outcome then
        ((positionFor db f.signal).fill f.signal.side f.fill f.fee).quantity
      else held db walletId marketId outcome := by
  unfold held Db.position
  rw [h, Keyed.find_put, fill_key, positionFor_key]
  have hiff : f.signal.positionKey = (walletId, marketId, outcome) ↔
      f.isOf walletId marketId = true ∧ f.signal.outcome = outcome := by
    unfold Signal.positionKey PaperFill.isOf
    simp [Prod.ext_iff, and_assoc]
  by_cases hk : f.signal.positionKey = (walletId, marketId, outcome)
  · rw [if_pos hk, if_pos (hiff.mp hk)]
    rfl
  · rw [if_neg hk, if_neg fun hc => hk (hiff.mpr hc)]

theorem AverageCost.nonneg {walletId marketId : Nat} {db : Db}
    {positions : List (String × MarketPosition)}
    (h : AverageCost walletId marketId db positions) {f : PaperFill}
    (hf : f.isOf walletId marketId = true) :
    0 ≤ (positionFor db f.signal).quantity ∧ (positionFor db f.signal).settledAt = none := by
  have hof := positionFor_isOf db f walletId marketId
  unfold positionFor at *
  cases hp : db.position f.signal.positionKey with
  | none => exact ⟨le_refl _, rfl⟩
  | some p =>
    rw [hp] at hof
    exact h.owned p (Keyed.find_some Position.key hp).1 (hof.trans hf)

theorem AverageCost.held_nonneg {walletId marketId : Nat} {db : Db}
    {positions : List (String × MarketPosition)}
    (h : AverageCost walletId marketId db positions) (outcome : String) :
    0 ≤ held db walletId marketId outcome := by
  unfold held
  cases hp : db.position (walletId, marketId, outcome) with
  | none => exact le_refl _
  | some p =>
    obtain ⟨hmem, hkey⟩ := Keyed.find_some Position.key hp
    exact (h.owned p hmem (Position.key_eq_iff.mp hkey).1).1

/-- A fill of another market changes nothing here. -/
theorem sumOf_filled (walletId marketId : Nat) (g : Position → ℚ) (db db' : Db) (f : PaperFill)
    (hg : g (newPosition db.positions f.signal) = 0)
    (h : db'.positions = Keyed.put Position.key
      ((positionFor db f.signal).fill f.signal.side f.fill f.fee) db.positions) :
    sumOf walletId marketId g db' = sumOf walletId marketId g db +
      if f.isOf walletId marketId then
        g ((positionFor db f.signal).fill f.signal.side f.fill f.fee) - g (positionFor db f.signal)
      else 0 := by
  have hkey := (fill_key (positionFor db f.signal) f.signal.side f.fill f.fee).trans
    (positionFor_key db f.signal)
  have hnew : (if (newPosition db.positions f.signal).isOf walletId marketId then
      g (newPosition db.positions f.signal) else 0) = 0 := by rw [hg, ite_self]
  rw [sumOf_eq, sumOf_eq, h, sum_put_position db f.signal _ _ hkey hnew, fill_isOf, positionFor_isOf]
  cases f.isOf walletId marketId with
  | true => exact add_sub_assoc _ _ _
  | false => simp

theorem AverageCost.filled {cfg : Settings} {walletId marketId : Nat} {db db' : Db} {f : PaperFill}
    {positions : List (String × MarketPosition)} (h : AverageCost walletId marketId db positions)
    (hf : Filling cfg db f db') (marketKey : String) :
    AverageCost walletId marketId db'
      (if f.isOf walletId marketId then addLeg positions (f.leg marketKey) else positions) := by
  obtain ⟨hc, rfl⟩ := hf
  have hpos := applyFill_positions cfg db f.signal f.fill f.fee
  have hkeys : ((applyFill cfg db f.signal f.fill f.fee).1.positions.map Position.key).Nodup := by
    rw [hpos]
    exact Keyed.put_nodup Position.key h.keys
  have hcash := sumOf_filled walletId marketId Position.cash db _ f (by
    show (0 : ℚ) - 0 * 0 = 0
    ring) hpos
  have hheld := held_filled db _ f hpos walletId marketId
  by_cases hof : f.isOf walletId marketId = true
  · obtain ⟨hq, hset⟩ := h.nonneg hof
    obtain ⟨hshares, hleg⟩ := fill_leg hq hc marketKey
    have hbefore : (positionFor db f.signal).quantity =
        held db walletId marketId f.signal.outcome := by
      obtain ⟨hw, hm⟩ : f.signal.walletId = walletId ∧ f.signal.marketId = marketId := by
        simpa [PaperFill.isOf] using hof
      rw [← hw, ← hm, ← ownedShares_eq]
      rfl
    rw [if_pos hof] at hcash ⊢
    refine ⟨hkeys, ?_, ?_, ?_⟩
    · rw [hcash, hleg, cash_addLeg, h.cash, add_sub_cancel_left]
      rfl
    · intro outcome
      have hout : (f.leg marketKey).outcome = f.signal.outcome := rfl
      rw [hheld, legPosition_addLeg, hout]
      by_cases ho : f.signal.outcome = outcome
      · subst ho
        rw [if_pos ⟨hof, rfl⟩, if_pos rfl, hshares, hbefore, h.shares]
      · rw [if_neg fun hb => ho hb.2, if_neg ho, h.shares]
    · intro p hp hpof
      rw [hpos] at hp
      rcases Keyed.mem_put_of Position.key hp with rfl | hp
      · exact ⟨fill_nonneg hq hc, (fill_settlement _ _ _ _).2.trans hset⟩
      · exact h.owned p hp hpof
  · rw [if_neg hof] at hcash ⊢
    refine ⟨hkeys, by rw [hcash, add_zero, h.cash], ?_, ?_⟩
    · intro outcome
      rw [hheld, if_neg fun hb => hof hb.1, h.shares]
    · intro p hp hpof
      rw [hpos] at hp
      rcases Keyed.mem_put_of Position.key hp with rfl | hp
      · rw [fill_isOf, positionFor_isOf] at hpof
        exact absurd hpof hof
      · exact h.owned p hp hpof

/-! ## The settlement -/

/-- A pass adds the P&L of each of its rows. -/
theorem sumOf_settled (cfg : Settings) (now : Time) (walletId marketId : Nat)
    (rows : List (Position × Settlement)) :
    ∀ db : Db, (db.positions.map Position.key).Nodup → (rows.map fun row => row.1.key).Nodup →
      (∀ row ∈ rows, row.1 ∈ db.positions) →
      sumOf walletId marketId Position.realizedPnl (settlePaperPositions cfg now db rows) =
        sumOf walletId marketId Position.realizedPnl db +
          (rows.map fun row => if row.1.isOf walletId marketId then
            settlementPnl row.1 row.2 else 0).sum := by
  induction rows with
  | nil =>
    intro db _ _ _
    exact (add_zero _).symm
  | cons row rest ih =>
    intro db hkeys hn hrows
    obtain ⟨p, st⟩ := row
    rw [List.map_cons, List.nodup_cons] at hn
    have hp := hrows _ List.mem_cons_self
    have hpositions : (settlePosition cfg now db (p, st)).positions =
        Keyed.put Position.key (p.settle st now) db.positions := by
      rw [settlePosition_eq]
      rfl
    have hone : sumOf walletId marketId Position.realizedPnl (settlePosition cfg now db (p, st)) =
        sumOf walletId marketId Position.realizedPnl db +
          if p.isOf walletId marketId then settlementPnl p st else 0 := by
      rw [sumOf_eq, sumOf_eq, hpositions, sum_put_stored hkeys hp (p := p.settle st now) rfl]
      show _ + (if p.isOf walletId marketId then p.realizedPnl + settlementPnl p st else 0) - _ = _
      cases p.isOf walletId marketId with
      | true => simp only [if_true]; ring
      | false => simp
    rw [List.map_cons, List.sum_cons, ← add_assoc, ← hone]
    refine ih (settlePosition cfg now db (p, st)) ?_ hn.2 ?_
    · rw [hpositions]
      exact Keyed.put_nodup Position.key hkeys
    · intro row hrow
      rw [hpositions]
      refine Keyed.mem_put_of_ne Position.key (hrows row (List.mem_cons_of_mem _ hrow)) ?_
      exact fun he => hn.1 (List.mem_map.mpr ⟨row, hrow, he⟩)

/-- The rows of the join, as a sum over the table. -/
theorem sum_settleRows (walletId marketId : Nat) {db : Db} {st : Settlement}
    (hst : db.settlement marketId = some st)
    (hclosed : ∀ p ∈ db.positions, p.isOf walletId marketId = true →
      p.isOpen = false → p.quantity = 0) :
    ((settleRows db).map fun row => if row.1.isOf walletId marketId then
      settlementPnl row.1 row.2 else 0).sum =
      sumOf walletId marketId (fun p => settlementPnl p st) db := by
  rw [sumOf_eq]
  unfold settleRows
  generalize db.positions = l at hclosed
  induction l with
  | nil => rfl
  | cons p l ih =>
    have hl := ih fun q hq => hclosed q (List.mem_cons_of_mem _ hq)
    rw [List.map_cons, List.sum_cons, ← hl, List.filterMap_cons]
    cases hof : p.isOf walletId marketId with
    | false =>
      split
      · simp
      · next row hrow =>
        have hrow1 : row.1 = p := by
          split at hrow
          · obtain ⟨st', -, rfl⟩ := Option.map_eq_some_iff.mp hrow
            rfl
          · cases hrow
        rw [List.map_cons, List.sum_cons, hrow1, hof]
        rfl
    | true =>
      have hm : p.marketId = marketId := by
        have := hof
        unfold Position.isOf at this
        simp at this
        exact this.2
      rw [hm, hst]
      cases ho : p.isOpen with
      | true => simp [hof]
      | false =>
        have hzero : settlementPnl p st = 0 := by
          unfold settlementPnl
          rw [hclosed p List.mem_cons_self hof ho, zero_mul]
        simp [hzero]

/-- The payout, position by position. -/
theorem sum_settlePrice {walletId marketId : Nat} {db : Db}
    (hn : (db.positions.map Position.key).Nodup) (st : Settlement) :
    sumOf walletId marketId (fun p => p.quantity * settlePrice p st) db =
      held db walletId marketId st.winningOutcome := by
  unfold held Db.position
  rw [sumOf_eq, ← Keyed.sum_of_key Position.key Position.quantity _ hn]
  congr 1
  refine List.map_congr_left fun p _ => ?_
  unfold settlePrice
  by_cases hof : p.isOf walletId marketId = true
  · by_cases ho : p.outcome = st.winningOutcome
    · rw [if_pos hof, if_pos ho, if_pos (Position.key_eq_iff.mpr ⟨hof, ho⟩), mul_one]
    · rw [if_pos hof, if_neg ho, if_neg fun hk => ho (Position.key_eq_iff.mp hk).2, mul_zero]
  · rw [if_neg hof, if_neg fun hk => hof (Position.key_eq_iff.mp hk).1]

theorem AverageCost.settled {cfg : Settings} {now : Time} {walletId marketId : Nat} {db : Db}
    {positions : List (String × MarketPosition)} (h : AverageCost walletId marketId db positions)
    {rows : List (Position × Settlement)} (hrows : rows.Perm (settleRows db)) {st : Settlement}
    (hst : db.settlement marketId = some st) :
    sumOf walletId marketId Position.realizedPnl (settlePaperPositions cfg now db rows) =
      (positions.map fun kv => kv.2.cashFlow).sum + winningPayout positions st.winningOutcome := by
  have hkeys : (rows.map fun row => row.1.key).Nodup :=
    (hrows.map fun row => row.1.key).nodup_iff.mpr (settleRows_keys h.keys)
  have hstored : ∀ row ∈ rows, row.1 ∈ db.positions := fun row hrow =>
    (mem_settleRows.mp (hrows.mem_iff.mp hrow)).1
  have hclosed : ∀ p ∈ db.positions, p.isOf walletId marketId = true →
      p.isOpen = false → p.quantity = 0 := by
    intro p hp hof hopen
    obtain ⟨hq, hset⟩ := h.owned p hp hof
    unfold Position.isOpen at hopen
    rw [hset] at hopen
    exact le_antisymm (by simpa using hopen) hq
  have hpays : 0 ≤ (legPosition positions st.winningOutcome).shares := by
    rw [← h.shares]
    exact h.held_nonneg st.winningOutcome
  rw [sumOf_settled cfg now walletId marketId rows db h.keys hkeys hstored,
    (hrows.map fun row : Position × Settlement =>
      if row.1.isOf walletId marketId then settlementPnl row.1 row.2 else 0).sum_eq,
    sum_settleRows walletId marketId hst hclosed, winningPayout_eq hpays, ← h.shares,
      ← sum_settlePrice h.keys st, ← h.cash]
  unfold sumOf
  rw [← List.sum_map_add, ← List.sum_map_add]
  congr 1
  refine List.map_congr_left fun p _ => ?_
  unfold settlementPnl Position.cash Position.cost
  ring

/-! ## The two accounts of a sequence of fills -/

/-- Any sequence of covered fills, of this and of other markets. -/
theorem averageCost_run {cfg : Settings} {walletId marketId : Nat}
    {db₀ db : Db} {tr : List (PaperFill × Db)} (marketKey : String)
    (hkeys : (db₀.positions.map Position.key).Nodup)
    (hnone : ∀ p ∈ db₀.positions, p.isOf walletId marketId = false)
    (h : Runs.Run (Filling cfg) db₀ tr db) :
    AverageCost walletId marketId db (legPositions (legsOf marketKey walletId marketId tr)) := by
  induction h with
  | nil =>
    refine ⟨hkeys, ?_, ?_, ?_⟩
    · unfold sumOf
      rw [List.filter_eq_nil_iff.mpr fun p hp hof => by rw [hnone p hp] at hof; cases hof]
      rfl
    · intro outcome
      unfold held Db.position
      rw [(Keyed.find_none Position.key).mpr]
      · rfl
      · intro p hp hkey
        have hof := (Position.key_eq_iff.mp hkey).1
        rw [hnone p hp] at hof
        cases hof
    · intro p hp hof
      rw [hnone p hp] at hof
      cases hof
  | @snoc tr db f db' _ hf ih =>
    have hstep := ih.filled hf marketKey
    have hlegs : legPositions (legsOf marketKey walletId marketId (tr ++ [(f, db')])) =
        if f.isOf walletId marketId then
        addLeg (legPositions (legsOf marketKey walletId marketId tr)) (f.leg marketKey)
        else legPositions (legsOf marketKey walletId marketId tr) := by
      unfold legPositions legsOf
      rw [List.map_append, List.filter_append, List.map_append, List.foldl_append]
      cases hof : f.isOf walletId marketId with
      | true => simp [hof]
      | false => simp [hof]
    rw [hlegs]
    exact hstep

/-- Realized P&L by average cost is realized P&L by cash flow: for a wallet and a market, after any
fills and the settlement of the market for any outcome. -/
theorem average_cost_is_cash_flow (cfg : Settings) (now : Time)
    (walletId marketId : Nat) (marketKey : String) (db₀ db : Db) (tr : List (PaperFill × Db))
    (st : Settlement) (rows : List (Position × Settlement))
    (hkeys : (db₀.positions.map Position.key).Nodup)
    (hnone : ∀ p ∈ db₀.positions, p.isOf walletId marketId = false)
    (hrun : Runs.Run (Filling cfg) db₀ tr db) (hst : db.settlement marketId = some st)
    (hrows : rows.Perm (settleRows db)) :
    (accountMarket marketKey (legsOf marketKey walletId marketId tr)
      (some st.winningOutcome)).realizedPnl =
      some (sumOf walletId marketId Position.realizedPnl
        (settlePaperPositions cfg now db rows)) := by
  have hbooks := averageCost_run marketKey hkeys hnone hrun
  rw [hbooks.settled hrows hst]
  rfl

/-- Every fill of a run is covered. -/
theorem FillGuard.covered {cfg : Settings} {db : Db} {s : Signal}
    {plan : Plan} {fill : Fill} {fee : ℚ}
    (h : FillGuard cfg db s plan fill fee) : (⟨s, fill, fee⟩ : PaperFill).Covered db := by
  unfold PaperFill.Covered
  dsimp only
  rcases h.traded with hs | hs
  · rw [if_pos hs]
    exact h.walk.size_pos
  · rw [if_neg (by rw [hs]; decide), ownedShares_eq]
    exact h.size_le hs

/-- The books after each of some fills. -/
def fillAll (cfg : Settings) : Db → List PaperFill → List (PaperFill × Db)
  | _, [] => []
  | db, f :: fills =>
    let db' := (applyFill cfg db f.signal f.fill f.fee).1
    (f, db') :: fillAll cfg db' fills

def resolvedMarket : Db := { Db.empty with settlements := [⟨1, "Yes"⟩] }

/-- `size` shares of market 1's "Yes" at a price and fee. -/
def sampleFill (id : Nat) (side : Side) (size price fee : ℚ) : PaperFill :=
  ⟨Signal.ofTrade id (sampleTrade id "a" 1 side 0), ⟨.filled, size, price, 100, 1⟩, fee⟩

/-- Bought, sold out, bought again at another price, and held until the market resolves. -/
def reentry : List PaperFill :=
  [sampleFill 1 .buy 10 (2 / 5) (1 / 10), sampleFill 2 .sell 10 (3 / 5) (1 / 20),
    sampleFill 3 .buy 4 (7 / 10) 0]

def afterReentry : Db :=
  ((fillAll {} resolvedMarket reentry).getLast?.map Prod.snd).getD resolvedMarket

theorem average_cost_is_cash_flow_reentry :
    (accountMarket "0xm" (legsOf "0xm" 1 1 (fillAll {} resolvedMarket reentry))
      (some "Yes")).realizedPnl =
      some (sumOf 1 1 Position.realizedPnl (settlePaperPositions
        {} 0 afterReentry (settleRows afterReentry))) :=
  average_cost_is_cash_flow {} 0 1 1 "0xm" resolvedMarket afterReentry _
    ⟨1, "Yes"⟩ _ (by decide) (by decide)
    (.snoc _ _ (.snoc _ _ (.single ⟨by decide +kernel, rfl⟩) ⟨by decide +kernel, rfl⟩)
      ⟨by decide +kernel, rfl⟩)
    (by decide +kernel) (List.Perm.refl _)

end Polycopy
