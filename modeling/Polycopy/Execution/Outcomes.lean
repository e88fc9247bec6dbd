import Polycopy.Execution.Service

/-!
# What each part of `execute_signal` has checked

One lemma a part: what holds when the gates ask for a book (`Requested`), when
the book gives a fill, when the fee lets it through, and what each of them may
have written.
-/

namespace Polycopy

open Py

theorem idempotencyKey_inj {s s' : Signal} (h : idempotencyKey s = idempotencyKey s') :
    s.sourceTradeId = s'.sourceTradeId := by
  have hl : "paper:".toList ++ s.sourceTradeId.toList =
      "paper:".toList ++ s'.sourceTradeId.toList := by
    rw [← String.toList_append, ← String.toList_append]
    exact congrArg String.toList h
  exact String.toList_inj.mp (List.append_cancel_left hl)

/-- The account row exists. -/
def withAccount (cfg : Settings) (db : Db) : Db := { db with account := some (accountOf cfg db) }

theorem getOrCreate_withAccount (cfg : Settings) (db : Db) :
    getOrCreateBankrollAccount cfg db = (accountOf cfg db, withAccount cfg db) :=
  getOrCreateBankrollAccount_eq cfg db

theorem copyEnabled_iff {wallet : Option Wallet} {tradedAt seenAt : Time} :
    copyEnabled wallet tradedAt seenAt = true ↔
      ∃ w b, wallet = some w ∧ w.approvalState = .approved ∧ w.approvedAt = some b ∧
        b ≤ tradedAt ∧ b ≤ seenAt := by
  unfold copyEnabled
  cases wallet with
  | none => simp
  | some w => cases hb : w.approvedAt <;> simp [hb]

/-! ## The gates -/

/-- The local variables of a side, read off the database. -/
inductive SideOk (cfg : Settings) (db : Db) (s : Signal) : SidePlan → Prop
  | buy (side : s.side = .buy)
      (global_cap : globalExposure db + cfg.maxOrderSizeUsd ≤ cfg.maxExposureGlobalUsd)
      (market_cap : marketExposure db s.marketId + cfg.maxOrderSizeUsd ≤ cfg.maxExposurePerMarketUsd)
      (cash : 0 < (accountOf cfg db).balance - globalExposure db) :
      SideOk cfg db s (.buy (globalExposure db) (marketExposure db s.marketId)
        ((accountOf cfg db).balance - globalExposure db))
  | sell (side : s.side = .sell) (owned : 0 < ownedShares db s) :
      SideOk cfg db s (.sell (ownedShares db s))
  | other {text : String} (side : s.side = .other text) : SideOk cfg db s .other

theorem sideGates_db (cfg : Settings) (db : Db) (s : Signal) :
    (sideGates cfg db s).1 = db ∨ (sideGates cfg db s).1 = withAccount cfg db := by
  unfold sideGates
  split
  · split <;> exact Or.inl rfl
  · dsimp only
    split
    · exact Or.inl rfl
    · rw [getOrCreate_withAccount]
      dsimp only
      split
      · exact Or.inr rfl
      · split <;> exact Or.inr rfl
  · exact Or.inl rfl

/-- A BUY that passes leaves the account created. -/
theorem sideGates_ok {cfg : Settings} {db db' : Db} {s : Signal} {side : SidePlan}
    (h : sideGates cfg db s = (db', .ok side)) :
    SideOk cfg db s side ∧ (s.side = .buy → db' = withAccount cfg db) := by
  unfold sideGates at h
  split at h
  · next hs =>
    split at h
    · cases h
    · next ho =>
      obtain ⟨rfl, he⟩ := Prod.mk.inj h
      obtain rfl := Except.ok.inj he
      exact ⟨.sell hs (not_le.mp ho), fun hb => by rw [hs] at hb; cases hb⟩
  · next hs =>
    dsimp only at h
    split at h
    · cases h
    · next hcap =>
      rw [getOrCreate_withAccount] at h
      dsimp only at h
      split at h
      · cases h
      · split at h
        · cases h
        · next hcash =>
          obtain ⟨rfl, he⟩ := Prod.mk.inj h
          obtain rfl := Except.ok.inj he
          rw [not_or, not_lt, not_lt] at hcap
          exact ⟨.buy hs hcap.1 hcap.2 (not_le.mp hcash), fun _ => rfl⟩
  · next t hs =>
    obtain ⟨rfl, he⟩ := Prod.mk.inj h
    obtain rfl := Except.ok.inj he
    exact ⟨.other hs, fun hb => by rw [hs] at hb; cases hb⟩

/-- What holds of the database the gates read when they ask for a book. -/
structure Requested (cfg : Settings) (now : Time) (db : Db) (s : Signal) (plan : Plan) : Prop where
  paper : paperOnly cfg = true
  fresh : now - s.t0TradedAt ≤ cfg.maxSignalExecutionAgeSeconds
  live : cfg.orderKillSwitch = false
  eligible : eligibleAt cfg s ≤ now
  approved : copyEnabled (db.wallet s.walletId) s.t0TradedAt s.t1DetectedAt = true
  open_market : ∃ m, db.market s.marketId = some m ∧ m.closed = false ∧
    m.conditionId = plan.conditionId
  side : SideOk cfg db s plan.side

/-- Everything the gates can do, with what they have read on the way. -/
inductive GatesCase (cfg : Settings) (now : Time) (db : Db) (s : Signal) : Db × Gates → Prop
  | raised (live : paperOnly cfg = false) : GatesCase cfg now db s (db, .raised)
  | killed (off : cfg.orderKillSwitch = true) :
      GatesCase cfg now db s ({ db with signals := bumpDeferrals s.id db.signals }, .deferred)
  | early (on : cfg.orderKillSwitch = false) : GatesCase cfg now db s (db, .deferred)
  | skipped (reason : MissReason) : GatesCase cfg now db s (db, .skip reason)
  | refused (db' : Db) (reason : MissReason) (side : sideGates cfg db s = (db', .error reason)) :
      GatesCase cfg now db s (db', .skip reason)
  | requested (db' : Db) (tokenId : String) (m : Market) (side : SidePlan)
      (paper : paperOnly cfg = true)
      (fresh : now - s.t0TradedAt ≤ cfg.maxSignalExecutionAgeSeconds)
        (on : cfg.orderKillSwitch = false)
      (eligible : eligibleAt cfg s ≤ now)
      (approved : copyEnabled (db.wallet s.walletId) s.t0TradedAt s.t1DetectedAt = true)
      (market : db.market s.marketId = some m) (opened : m.closed = false)
        (token : tokenFor s m = some tokenId)
      (gates : sideGates cfg db s = (db', .ok side)) :
      GatesCase cfg now db s (db', .request ⟨tokenId, m.conditionId, side⟩)

theorem executeGates_case (cfg : Settings) (now : Time) (db : Db) (s : Signal) :
    GatesCase cfg now db s (executeGates cfg now db s) := by
  unfold executeGates
  split
  · next hp => exact .raised (by simpa using hp)
  next hp =>
  split
  · exact .skipped _
  next hfresh =>
  split
  · next hkill => exact .killed hkill
  next hkill =>
  have hon : cfg.orderKillSwitch = false := by simpa using hkill
  split
  · exact .early hon
  next heligible =>
  split
  · exact .skipped _
  next happroved =>
  split
  · exact .skipped _
  next m hm =>
  split
  · exact .skipped _
  next hclosed =>
  split
  · exact .skipped _
  next tokenId htoken =>
  split
  · next db' reason hside => exact .refused db' reason hside
  · next db' side hside =>
    exact .requested db' tokenId m side (by simpa using hp)
      (not_lt.mp hfresh) hon (not_lt.mp heligible)
      (by simpa using happroved) hm (by simpa using hclosed) htoken hside

theorem executeGates_request {cfg : Settings} {now : Time} {db db' : Db} {s : Signal} {plan : Plan}
    (h : executeGates cfg now db s = (db', .request plan)) :
    Requested cfg now db s plan ∧ (db' = db ∨ db' = withAccount cfg db) ∧
      (s.side = .buy → db' = withAccount cfg db) := by
  have hcase := executeGates_case cfg now db s
  rw [h] at hcase
  cases hcase with
  | requested _ tokenId m side paper fresh on eligible approved market opened token gates =>
    have hdb := sideGates_db cfg db s
    rw [gates] at hdb
    obtain ⟨hok, hbuy⟩ := sideGates_ok gates
    exact ⟨⟨paper, fresh, on, eligible, approved, ⟨m, market, opened, rfl⟩, hok⟩, hdb, hbuy⟩

theorem executeGates_skip {cfg : Settings} {now : Time} {db db' : Db}
    {s : Signal} {reason : MissReason} (h : executeGates cfg now db s = (db', .skip reason)) :
    db' = db ∨ db' = withAccount cfg db := by
  have hcase := executeGates_case cfg now db s
  rw [h] at hcase
  cases hcase with
  | skipped => exact .inl rfl
  | refused _ _ side =>
    have hdb := sideGates_db cfg db s
    rwa [side] at hdb

theorem executeGates_deferred {cfg : Settings} {now : Time} {db db' : Db} {s : Signal}
    (h : executeGates cfg now db s = (db', .deferred)) :
    (cfg.orderKillSwitch = true ∧ db' = { db with signals := bumpDeferrals s.id db.signals }) ∨
      (cfg.orderKillSwitch = false ∧ db' = db) := by
  have hcase := executeGates_case cfg now db s
  rw [h] at hcase
  cases hcase with
  | killed off => exact .inl ⟨off, rfl⟩
  | early on => exact .inr ⟨on, rfl⟩

/-! ## The book and the fee -/

theorem afterBook_fill {cfg : Settings} {s : Signal} {plan : Plan} {book : Json} {fill : Fill}
    {snapshot : BookSnapshot} (hcap : ∀ r, plan.owned = some r → 0 ≤ r)
    (h : afterBook cfg s plan book = .ok (.fill fill snapshot)) :
    FillOk cfg.maxOrderSizeUsd plan.owned fill ∧ (s.side = .buy ∨ s.side = .sell) := by
  obtain ⟨jb, -, h⟩ := bind_ok h
  obtain ⟨bids, -, h⟩ := bind_ok h
  obtain ⟨ja, -, h⟩ := bind_ok h
  obtain ⟨asks, -, h⟩ := bind_ok h
  obtain ⟨r, hr, h⟩ := bind_ok h
  split at h
  · cases h
  · split at h
    · cases h
    · obtain ⟨rfl, rfl⟩ := BookOutcome.fill.inj (Except.ok.inj h)
      exact walkBook_took hcap hr

theorem afterFee_fill {pw : DecPow} {cfg : Settings} {plan : Plan} {fill : Fill} {feeInfo : Json}
    {fee : ℚ} {marketFee : MarketFee}
    (h : afterFee pw cfg plan fill feeInfo = .ok (.fill fee marketFee)) :
    0 ≤ fee ∧ feeGates cfg plan fill fee = none := by
  obtain ⟨mf, hmf, h⟩ := bind_ok h
  obtain ⟨f, hf, h⟩ := bind_ok h
  split at h
  · cases h
  · next hgates =>
    obtain ⟨rfl, rfl⟩ := FeeOutcome.fill.inj (Except.ok.inj h)
    exact ⟨takerFee_nonneg (fromMarketInfo_nonneg hmf).1 hf, hgates⟩

/-- A BUY let through costs, with its fee, no more than either cap leaves and
no more than the cash. -/
theorem feeGates_buy {cfg : Settings} {plan : Plan} {fill : Fill} {fee globalExp marketExp cash : ℚ}
    (hp : plan.side = .buy globalExp marketExp cash) (h : feeGates cfg plan fill fee = none) :
    globalExp + fill.filledSize * fill.fillPrice + fee ≤ cfg.maxExposureGlobalUsd ∧
    marketExp + fill.filledSize * fill.fillPrice + fee ≤ cfg.maxExposurePerMarketUsd ∧
    fill.filledSize * fill.fillPrice + fee ≤ cash := by
  unfold feeGates at h
  rw [hp] at h
  dsimp only at h
  split at h
  · cases h
  · next hcap =>
    split at h
    · cases h
    · next hcash =>
      rw [not_or, not_lt, not_lt] at hcap
      exact ⟨hcap.1, hcap.2, not_lt.mp hcash⟩

end Polycopy
