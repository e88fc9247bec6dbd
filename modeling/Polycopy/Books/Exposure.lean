import Polycopy.Schedule

/-!
# No synthetic shorts, and the exposure caps

Positions never go below zero shares, a SELL takes its shares from its own
position only, and cost basis stays within the caps: globally over all wallets,
and in each market over all wallets and outcomes.  A cap set below zero admits
no BUY at all, so the bound is the cap or zero, whichever is larger.
-/

namespace Polycopy

theorem marketExposure_eq (db : Db) (marketId : Nat) :
    marketExposure db marketId =
      (db.positions.map fun p => if p.marketId = marketId then p.cost else 0).sum := by
  unfold marketExposure
  induction db.positions with
  | nil => rfl
  | cons p l ih =>
    rw [List.map_cons, List.sum_cons, ← ih]
    by_cases h : p.marketId = marketId <;> simp [h]

structure Bounded (globalCap marketCap : ℚ) (db : Db) : Prop where
  quantity_nonneg : ∀ p ∈ db.positions, 0 ≤ p.quantity
  avgPrice_nonneg : ∀ p ∈ db.positions, 0 ≤ p.avgPrice
  global_le : globalExposure db ≤ max globalCap 0
  market_le : ∀ marketId, marketExposure db marketId ≤ max marketCap 0

theorem bounded_empty (globalCap marketCap : ℚ) : Bounded globalCap marketCap Db.empty := by
  refine ⟨by simp [Db.empty], by simp [Db.empty], le_max_right _ _, fun marketId => ?_⟩
  exact le_max_right _ _

theorem bounded_positions {globalCap marketCap : ℚ} {db db' : Db}
    (h : Bounded globalCap marketCap db)
    (he : db'.positions = db.positions) : Bounded globalCap marketCap db' := by
  obtain ⟨h1, h2, h3, h4⟩ := h
  unfold globalExposure marketExposure at *
  rw [← he] at h1 h2 h3
  simp only [← he] at h4
  exact ⟨h1, h2, h3, h4⟩

/-! ## A fill -/

theorem positionFor_avg {db : Db} (h : ∀ p ∈ db.positions, 0 ≤ p.avgPrice) (s : Signal) :
    0 ≤ (positionFor db s).avgPrice := by
  unfold positionFor
  cases hp : db.position s.positionKey with
  | none => exact le_refl _
  | some p => exact h p (Keyed.find_some Position.key hp).1

theorem fill_avg_nonneg {p : Position} {side : Side} {f : Fill} {fee : ℚ} (hq : 0 ≤ p.quantity)
    (ha : 0 ≤ p.avgPrice) (hsize : 0 < f.filledSize) (hprice : 0 < f.fillPrice) (hfee : 0 ≤ fee) :
    0 ≤ (p.fill side f fee).avgPrice := by
  unfold Position.fill
  split
  · show 0 ≤ (if 0 < p.quantity + f.filledSize then _ else (0 : ℚ))
    split
    · next hpos =>
      have hcost : 0 ≤ p.quantity * p.avgPrice := mul_nonneg hq ha
      have hnotional : 0 < f.filledSize * f.fillPrice := mul_pos hsize hprice
      exact div_nonneg (by linarith) hpos.le
    · exact le_refl _
  · exact ha

theorem fill_marketId (db : Db) (s : Signal) (f : Fill) (fee : ℚ) :
    ((positionFor db s).fill s.side f fee).marketId = s.marketId := by
  rw [← positionFor_marketId db s]
  exact congrArg (fun k => k.2.1) (fill_key (positionFor db s) s.side f fee)

/-- Exposure after a fill: all of it, and that of each market. -/
theorem fill_exposure (cfg : Settings) (db : Db) (s : Signal) (now retrievedAt : Time) (fill : Fill)
    (snapshot : BookSnapshot) (fee : ℚ) (marketFee : MarketFee) (marketId : Nat) :
    globalExposure (commitFill cfg db s now retrievedAt fill snapshot fee marketFee) =
      globalExposure db +
      (((positionFor db s).fill s.side fill fee).cost - (positionFor db s).cost) ∧
    marketExposure (commitFill cfg db s now retrievedAt fill snapshot fee marketFee) marketId =
      marketExposure db marketId + if s.marketId = marketId then
        ((positionFor db s).fill s.side fill fee).cost - (positionFor db s).cost else 0 := by
  have hkey : ((positionFor db s).fill s.side fill fee).key = s.positionKey := by
    rw [fill_key, positionFor_key]
  have hm := fill_marketId db s fill fee
  have hm' := positionFor_marketId db s
  rw [marketExposure_eq, marketExposure_eq, commitFill_eq]
  constructor
  · show ((Keyed.put _ _ _).map Position.cost).sum = _
    rw [sum_put_position db s _ Position.cost hkey (zero_mul _), add_sub_assoc]
    rfl
  · show ((Keyed.put _ _ _).map fun p : Position =>
      if p.marketId = marketId then p.cost else 0).sum = _
    have hnew : (if (newPosition db.positions s).marketId = marketId then
        (newPosition db.positions s).cost else 0) = 0 := by
      rw [show (newPosition db.positions s).cost = 0 from zero_mul _]
      split <;> rfl
    rw [sum_put_position db s _ _ hkey hnew, hm, hm', add_sub_assoc]
    by_cases h : s.marketId = marketId
    · rw [if_pos h, if_pos h, if_pos h]
    · rw [if_neg h, if_neg h, if_neg h, sub_zero]

/-- The basis a fill adds: the dollars of a BUY, none for a SELL. -/
theorem fill_cost_delta {cfg : Settings} {db : Db} {s : Signal}
    {plan : Plan} {fill : Fill} {fee : ℚ} (guard : FillGuard cfg db s plan fill fee)
    (hq : 0 ≤ (positionFor db s).quantity) (ha : 0 ≤ (positionFor db s).avgPrice) :
    (s.side = .buy ∧ ((positionFor db s).fill s.side fill fee).cost - (positionFor db s).cost =
      fill.filledSize * fill.fillPrice + fee) ∨
    ((positionFor db s).fill s.side fill fee).cost - (positionFor db s).cost ≤ 0 := by
  unfold Position.fill
  rcases guard.traded with hs | hs
  · left
    refine ⟨hs, ?_⟩
    rw [if_pos hs, Position.buy_cost _ _ _ _ hq guard.walk.size_pos]
    ring
  · right
    have hne : ¬ s.side = .buy := by rw [hs]; decide
    rw [if_neg hne, Position.sell_cost _ _ _ _ (guard.size_le hs)]
    have := mul_nonneg guard.walk.size_pos.le ha
    linarith

theorem Bounded.filled {cfg : Settings} {db : Db} {s : Signal} {plan : Plan} {fill : Fill} {fee : ℚ}
    (h : Bounded cfg.maxExposureGlobalUsd cfg.maxExposurePerMarketUsd db) (now retrievedAt : Time)
    (snapshot : BookSnapshot) (marketFee : MarketFee) (guard : FillGuard cfg db s plan fill fee) :
    Bounded cfg.maxExposureGlobalUsd cfg.maxExposurePerMarketUsd
      (commitFill cfg db s now retrievedAt fill snapshot fee marketFee) := by
  have hq := positionFor_nonneg h.quantity_nonneg s
  have ha := positionFor_avg h.avgPrice_nonneg s
  have hexp := fill_exposure cfg db s now retrievedAt fill snapshot fee marketFee
  have hput : ∀ p ∈ (commitFill cfg db s now retrievedAt fill snapshot fee marketFee).positions,
      p = (positionFor db s).fill s.side fill fee ∨ p ∈ db.positions := by
    rw [commitFill_eq]
    exact fun p hp => Keyed.mem_put_of Position.key hp
  refine ⟨?_, ?_, ?_, ?_⟩
  · intro p hp
    rcases hput p hp with rfl | hp
    · exact fill_quantity_nonneg guard hq
    · exact h.quantity_nonneg p hp
  · intro p hp
    rcases hput p hp with rfl | hp
    · exact fill_avg_nonneg hq ha guard.walk.size_pos guard.walk.price_pos guard.fee_nonneg
    · exact h.avgPrice_nonneg p hp
  · rw [(hexp 0).1]
    rcases fill_cost_delta guard hq ha with ⟨hs, hd⟩ | hd
    · rw [hd]
      exact le_max_of_le_left (guard.buy hs).1
    · have := h.global_le
      linarith
  · intro m
    rw [(hexp m).2]
    have := h.market_le m
    by_cases hm : s.marketId = m
    · rw [if_pos hm]
      rcases fill_cost_delta guard hq ha with ⟨hs, hd⟩ | hd
      · subst hm
        rw [hd]
        exact le_max_of_le_left (guard.buy hs).2.1
      · linarith
    · rw [if_neg hm, add_zero]
      exact this

/-! ## A settlement, and the rest -/

theorem Bounded.settled {globalCap marketCap : ℚ} {cfg : Settings} {db : Db}
    (h : Bounded globalCap marketCap db) (ht : Tables db) {p : Position} (st : Settlement)
    (now : Time)
    (hp : p ∈ db.positions) : Bounded globalCap marketCap (settlePosition cfg now db (p, st)) := by
  have hcost : 0 ≤ p.cost := mul_nonneg (h.quantity_nonneg p hp) (h.avgPrice_nonneg p hp)
  have hzero : (p.settle st now).cost = 0 := zero_mul _
  have hsum := sum_put_stored ht.positionKeys hp (rfl : (p.settle st now).key = p.key)
  rw [settlePosition_eq]
  refine ⟨?_, ?_, ?_, ?_⟩
  · intro q hq
    rcases Keyed.mem_put_of Position.key hq with rfl | hq
    · exact le_refl _
    · exact h.quantity_nonneg q hq
  · intro q hq
    rcases Keyed.mem_put_of Position.key hq with rfl | hq
    · exact h.avgPrice_nonneg p hp
    · exact h.avgPrice_nonneg q hq
  · show ((Keyed.put _ _ _).map Position.cost).sum ≤ _
    rw [hsum, hzero]
    have := h.global_le
    unfold globalExposure at this
    linarith
  · intro m
    have hm := h.market_le m
    rw [marketExposure_eq] at hm ⊢
    show ((Keyed.put _ _ _).map fun p : Position => if p.marketId = m then p.cost else 0).sum ≤ _
    rw [hsum, hzero]
    by_cases hpm : p.marketId = m
    · rw [if_pos hpm]
      split <;> linarith
    · rw [if_neg hpm]
      split <;> linarith

theorem Bounded.effect {cfg : Settings} {db db' : Db} (ht : Tables db)
    (h : Bounded cfg.maxExposureGlobalUsd cfg.maxExposurePerMarketUsd db) (he : Effect cfg db db') :
    Bounded cfg.maxExposureGlobalUsd cfg.maxExposurePerMarketUsd db' := by
  cases he with
  | same hs => exact bounded_positions h hs.positions
  | detected | deferred | missed | swept => exact bounded_positions h rfl
  | filled s plan now retrievedAt fill snapshot fee marketFee guard =>
    exact h.filled now retrievedAt snapshot marketFee guard
  | settled p st now mem => exact h.settled ht st now mem

/-! ## What one SELL does -/

/-- The order sold exactly its filled size out of exactly the position of its own signal. -/
structure SoldExactly (db db' : Db) (o : PaperOrder) (sig : Signal)
    (p p' : Position) (size : ℚ) : Prop where
  signal : db'.signal o.signalId = some sig
  wallet : o.walletId = sig.walletId
  market : o.marketId = sig.marketId
  filled : o.filledSize = some size
  before : db.position sig.positionKey = some p
  after : db'.position sig.positionKey = some p'
  size_pos : 0 < size
  size_le : size ≤ p.quantity
  quantity : p'.quantity = p.quantity - size
  others : ∀ key, key ≠ sig.positionKey → db'.position key = db.position key

/-- A SELL needs shares, so its position is a stored one. -/
theorem sold_from_stored {cfg : Settings} {db : Db} {s : Signal}
    {plan : Plan} {fill : Fill} {fee : ℚ} (guard : FillGuard cfg db s plan fill fee)
    (hs : s.side = .sell) :
    ∃ p, db.position s.positionKey = some p ∧ positionFor db s = p := by
  have hle := guard.size_le hs
  have hpos := guard.walk.size_pos
  unfold positionFor at hle ⊢
  cases hp : db.position s.positionKey with
  | some p => exact ⟨p, rfl, rfl⟩
  | none =>
    rw [hp] at hle
    exact absurd (lt_of_lt_of_le hpos hle) (lt_irrefl 0)

theorem commitFill_signal {cfg : Settings} {db : Db} {s : Signal}
    (held : Held db s) (now retrievedAt : Time) (fill : Fill) (snapshot : BookSnapshot)
    (fee : ℚ) (marketFee : MarketFee) :
    (commitFill cfg db s now retrievedAt fill snapshot fee marketFee).signal s.id =
      some { s with status := .executed } := by
  rw [commitFill_eq]
  show Keyed.find Signal.id s.id (setStatus .executed s.id db.signals) = _
  rw [find_setStatus]
  have hrow := held.row
  unfold Db.signal at hrow
  rw [hrow, Option.map_some, if_pos rfl]

theorem sell_step {s t : Sys} {b : Batch} {f : Flight} {fill : Fill}
    {snapshot : BookSnapshot} {fee : ℚ} {marketFee : MarketFee} {e : Event}
    (h : FillStep s b f fill snapshot fee marketFee e t) {o : PaperOrder}
    (ho : o ∈ t.db.paperOrders) (hnew : o ∉ s.db.paperOrders) (hside : o.side = .sell) :
    ∃ sig p p' size, SoldExactly s.db t.db o sig p p' size := by
  obtain ⟨-, -, guard, rfl⟩ := h
  have horders := ho
  change o ∈ (commitFill s.cfg s.view f.signal f.now s.clock fill snapshot fee
    marketFee).paperOrders at horders
  rw [commitFill_eq] at horders
  rcases List.mem_append.mp horders with hold | hone
  · exact absurd hold hnew
  · obtain rfl := List.mem_singleton.mp hone
    have hs : f.signal.side = .sell := hside
    have hne : ¬ f.signal.side = .buy := by rw [hs]; decide
    obtain ⟨p, hp, hfor⟩ := sold_from_stored guard hs
    have hle := guard.size_le hs
    rw [hfor] at hle
    have hkey : (p.sell fill.filledSize fill.fillPrice fee).key = f.signal.positionKey :=
      (Keyed.find_some Position.key hp).2
    have hpos : ∀ key,
        (commitFill s.cfg s.view f.signal f.now s.clock fill snapshot fee marketFee).position key =
        if f.signal.positionKey = key then some (p.sell fill.filledSize fill.fillPrice fee)
        else s.db.position key := by
      intro key
      rw [commitFill_eq, hfor]
      show Keyed.find Position.key key (Keyed.put Position.key (p.fill _ _ _) s.db.positions) = _
      unfold Position.fill
      rw [if_neg hne, Keyed.find_put, hkey]
      rfl
    refine ⟨_, p, p.sell fill.filledSize fill.fillPrice fee, fill.filledSize,
      commitFill_signal guard.held _ _ _ _ _ _, rfl, rfl, rfl, hp, ?_,
      guard.walk.size_pos, hle, ?_, ?_⟩
    · exact (hpos _).trans (if_pos rfl)
    · exact p.sell_quantity _ _ _ hle
    · intro key hk
      exact (hpos key).trans (if_neg fun he => hk he.symm)

/-! ## The theorem -/

/-- No restart of the run changes the caps. -/
def FixedCaps (cfg : Settings) (tr : List (Event × Sys)) : Prop :=
  ∀ x ∈ tr, x.2.cfg.maxExposureGlobalUsd = cfg.maxExposureGlobalUsd ∧
    x.2.cfg.maxExposurePerMarketUsd = cfg.maxExposurePerMarketUsd

instance (cfg : Settings) (tr : List (Event × Sys)) : Decidable (FixedCaps cfg tr) :=
  inferInstanceAs (Decidable (∀ x ∈ tr, _))

theorem SysRun.bounded {pw : Py.DecPow} {tx : Py.Text} {cfg : Settings} {t0 : Time}
    {tr : List (Event × Sys)} {s : Sys} (h : SysRun pw tx cfg t0 tr s) (hcaps : FixedCaps cfg tr) :
    Bounded cfg.maxExposureGlobalUsd cfg.maxExposurePerMarketUsd s.db := by
  obtain ⟨hc, hb⟩ := h.books_inv
    (fun c => c.maxExposureGlobalUsd = cfg.maxExposureGlobalUsd ∧
      c.maxExposurePerMarketUsd = cfg.maxExposurePerMarketUsd)
    (fun c db => Bounded c.maxExposureGlobalUsd c.maxExposurePerMarketUsd db)
    (bounded_empty _ _) (fun _ _ _ ht hi he => hi.effect ht he)
    (fun c c' db hc hc' hi => by rw [hc.1, hc.2] at hi; rw [hc'.1, hc'.2]; exact hi) ⟨rfl, rfl⟩ hcaps
  rw [hc.1, hc.2] at hb
  exact hb

/-- In every state of a run with fixed caps: no short, no negative price, every SELL that
may come next takes exactly its own shares, and exposure is within the caps or zero. -/
theorem no_shorts_and_caps (pw : Py.DecPow) (tx : Py.Text) (cfg : Settings) (t0 : Time)
    (tr : List (Event × Sys)) (s : Sys) (h : SysRun pw tx cfg t0 tr s) (hcaps : FixedCaps cfg tr) :
    (∀ p ∈ s.db.positions, 0 ≤ p.quantity ∧ 0 ≤ p.avgPrice) ∧
    (∀ e t, Step pw tx s e t → ∀ o ∈ t.db.paperOrders, o ∉ s.db.paperOrders → o.isFill = true →
      o.side = .sell → ∃ sig p p' size, SoldExactly s.db t.db o sig p p' size) ∧
    globalExposure s.db ≤ max cfg.maxExposureGlobalUsd 0 ∧
    ∀ marketId, marketExposure s.db marketId ≤ max cfg.maxExposurePerMarketUsd 0 := by
  have hb := h.bounded hcaps
  refine ⟨fun p hp => ⟨hb.quantity_nonneg p hp, hb.avgPrice_nonneg p hp⟩,
    ?_, hb.global_le, hb.market_le⟩
  intro e t hstep o ho hnew hfill hside
  cases hstep.kind h.ok with
  | filled b f fill snapshot fee marketFee hf => exact sell_step hf ho hnew hside
  | settled startedAt rows event query after =>
    subst after
    exact absurd ((settlePaperPositions_orders s.cfg startedAt rows s.db).1 ▸ ho) hnew
  | swept limit amount event limit_pos amount_pos le_pile le_free after =>
    subst after
    exact absurd ho hnew
  | other event positions fills money => exact absurd (fills o ho hfill) hnew

/-- A SELL of twenty shares on a book where ten dollars buy eleven of them. -/
def sellSome : List Command :=
  enrol ++ [.ingestTrade (sampleTrade 1 "a" 1 .buy 0), .ingestTrade (sampleTrade 2 "b" 1 .sell 0)] ++
    startCycle ++ [.tick 30] ++ fillNext "0.5" (feeRate "0.01") ++
      fillNext "0.9" (feeRate "0.02") ++ endCycle

theorem no_shorts_and_caps_sellSome :
    globalExposure (outcome liveSettings sellSome).db ≤ max liveSettings.maxExposureGlobalUsd 0 ∧
    0 < globalExposure (outcome liveSettings sellSome).db :=
  ⟨(no_shorts_and_caps _ _ _ _ _ _ (history_run (by decide +kernel)) (by decide +kernel)).2.2.1,
    by decide +kernel⟩

/-- The cap alone is not a bound: a cap set below zero is passed by the empty portfolio. -/
theorem caps_may_be_negative :
    ¬ ∀ (pw : Py.DecPow) (tx : Py.Text) (cfg : Settings) (t0 : Time)
      (tr : List (Event × Sys)) (s : Sys),
      SysRun pw tx cfg t0 tr s → FixedCaps cfg tr →
      globalExposure s.db ≤ cfg.maxExposureGlobalUsd := by
  intro h
  have hrun : SysRun Py.natPow Py.Text.plain { maxExposureGlobalUsd := -1 } 0 []
      (Sys.init { maxExposureGlobalUsd := -1 } 0) := .nil
  have := h _ _ _ _ _ _ hrun (fun x hx => by cases hx)
  exact absurd this (by decide +kernel)

end Polycopy
