import Polycopy.Books.Exposure

/-!
# What a fill has passed

`executeLogged` is `execute_signal` with the requests it makes to the CLOB.  An
order that is filled has passed every gate before the snapshot (`GatesPass`) and
every one after it (`FillGates`); when one of the first kind fails nothing is
requested.
-/

namespace Polycopy

open Py

/-! ## Requests and the order returned -/

inductive Request
  | orderBook (tokenId : String)
  | marketInfo (conditionId : String)
  deriving DecidableEq, Repr

/-- `executeSignal`, with the requests in their order. -/
def executeLogged (pw : DecPow) (cfg : Settings) (now retrievedAt : Time) (db : Db) (s : Signal)
    (book : String → Except Exc Json) (feeInfo : String → Except Exc Json) :
    List Request × Executed :=
  match executeGates cfg now db s with
  | (_, .raised) => ([], .raised)
  | (db, .deferred) => ([], .deferred db)
  | (db, .skip reason) => ([], .skipped reason (recordSkip cfg db s reason now none))
  | (db, .request plan) => match (book plan.tokenId).bind (afterBook cfg s plan) with
    | .error _ => ([.orderBook plan.tokenId], .raised)
    | .ok (.skip reason evidence) =>
      ([.orderBook plan.tokenId], .skipped reason (recordSkip cfg db s reason now (some evidence)))
    | .ok (.fill fill snapshot) =>
      match (feeInfo plan.conditionId).bind (afterFee pw cfg plan fill) with
      | .error _ => ([.orderBook plan.tokenId, .marketInfo plan.conditionId], .raised)
      | .ok (.skip reason) => ([.orderBook plan.tokenId, .marketInfo plan.conditionId],
          .skipped reason (recordSkip cfg db s reason now (some (bookEvidence fill snapshot))))
      | .ok (.fill fee marketFee) => ([.orderBook plan.tokenId, .marketInfo plan.conditionId],
          .filled (commitFill cfg db s now retrievedAt fill snapshot fee marketFee))

/-- The `PaperOrder` returned, the last one written; a deferred call returns none. -/
def Executed.order : Executed → Option PaperOrder
  | .raised => none
  | .deferred _ => none
  | .skipped _ db => db.paperOrders.getLast?
  | .filled db => db.paperOrders.getLast?

/-- The database as the call leaves it in its session. -/
def Executed.db (before : Db) : Executed → Db
  | .raised => before
  | .deferred db => db
  | .skipped _ db => db
  | .filled db => db

theorem executeLogged_result (pw : DecPow) (cfg : Settings)
    (now retrievedAt : Time) (db : Db) (s : Signal) (book : String → Except Exc Json)
    (feeInfo : String → Except Exc Json) :
    (executeLogged pw cfg now retrievedAt db s book feeInfo).2 =
      executeSignal pw cfg now retrievedAt db s book feeInfo := by
  unfold executeLogged executeSignal
  obtain ⟨db', gates⟩ := executeGates cfg now db s
  cases gates with
  | raised | deferred | skip reason => rfl
  | request plan =>
    dsimp only
    cases (book plan.tokenId).bind (afterBook cfg s plan) with
    | error e => rfl
    | ok outcome =>
      cases outcome with
      | skip reason evidence => rfl
      | fill fill snapshot =>
        dsimp only
        cases (feeInfo plan.conditionId).bind (afterFee pw cfg plan fill) with
        | error e => rfl
        | ok outcome => cases outcome <;> rfl

/-! ## The gates before the snapshot -/

/-- The gates, in the order of the source. -/
structure GatesPass (cfg : Settings) (now : Time) (db : Db) (s : Signal) : Prop where
  paper : cfg.paperMode = true ∧ cfg.allowLiveTrading = false
  fresh : now - s.t0TradedAt ≤ cfg.maxSignalExecutionAgeSeconds
  live : cfg.orderKillSwitch = false
  reviewed : s.t1DetectedAt + cfg.reviewDelaySeconds ≤ now
  approved : ∃ w b, db.wallet s.walletId = some w ∧
    w.approvalState = .approved ∧ w.approvedAt = some b ∧
    b ≤ s.t0TradedAt ∧ b ≤ s.t1DetectedAt
  market : ∃ m tokenId, db.market s.marketId = some m ∧
    m.closed = false ∧ tokenFor s m = some tokenId
  owned : s.side = .sell → 0 < ownedShares db s
  caps : s.side = .buy → globalExposure db + cfg.maxOrderSizeUsd ≤ cfg.maxExposureGlobalUsd ∧
    marketExposure db s.marketId + cfg.maxOrderSizeUsd ≤ cfg.maxExposurePerMarketUsd
  stopLoss : s.side = .buy → ∀ floor, (accountOf cfg db).stopLossFloorUsd = some floor → 0 < floor →
    floor < (accountOf cfg db).balance
  cash : s.side = .buy → 0 < (accountOf cfg db).balance - globalExposure db

theorem stopLossHit_false {a : BankrollAccount} (h : ¬ stopLossHit a = true) {floor : ℚ}
    (hfloor : a.stopLossFloorUsd = some floor) (hpos : 0 < floor) : floor < a.balance := by
  unfold stopLossHit at h
  rw [hfloor] at h
  simpa [hpos] using h

/-- A BUY that passes its gates is above the floor. -/
theorem sideGates_floor {cfg : Settings} {db db' : Db} {s : Signal}
    {side : SidePlan} (hs : s.side = .buy)
    (h : sideGates cfg db s = (db', .ok side)) : ¬ stopLossHit (accountOf cfg db) = true := by
  unfold sideGates at h
  rw [hs] at h
  dsimp only at h
  split at h
  · cases h
  · rw [getOrCreate_withAccount] at h
    dsimp only at h
    split at h
    · cases h
    · next hfloor => exact hfloor

theorem executeGates_sideGates {cfg : Settings} {now : Time}
    {db db' : Db} {s : Signal} {plan : Plan}
    (h : executeGates cfg now db s = (db', .request plan)) :
    (∃ m tokenId, db.market s.marketId = some m ∧ m.closed = false ∧ tokenFor s m = some tokenId) ∧
      sideGates cfg db s = (db', .ok plan.side) := by
  have hcase := executeGates_case cfg now db s
  rw [h] at hcase
  cases hcase with
  | requested _ tokenId m side paper fresh on eligible approved market opened token gates =>
    exact ⟨⟨m, tokenId, market, opened, token⟩, gates⟩

/-- A book is asked for only when every gate has passed. -/
theorem gatesPass_of_request {cfg : Settings} {now : Time} {db db' : Db} {s : Signal} {plan : Plan}
    (h : executeGates cfg now db s = (db', .request plan)) : GatesPass cfg now db s := by
  obtain ⟨hreq, -, -⟩ := executeGates_request h
  obtain ⟨hmarket, hside⟩ := executeGates_sideGates h
  have hpaper := hreq.paper
  unfold paperOnly at hpaper
  rw [Bool.and_eq_true, Bool.not_eq_true'] at hpaper
  have hplan := hreq.side
  refine ⟨hpaper, hreq.fresh, hreq.live, hreq.eligible,
    copyEnabled_iff.mp hreq.approved, hmarket, ?_, ?_, ?_, ?_⟩
  · intro hs
    generalize plan.side = side at hplan
    cases hplan with
    | buy side => rw [hs] at side; cases side
    | sell side owned => exact owned
    | other side => rw [hs] at side; cases side
  · intro hs
    generalize plan.side = side at hplan
    cases hplan with
    | buy side global_cap market_cap => exact ⟨global_cap, market_cap⟩
    | sell side => rw [hs] at side; cases side
    | other side => rw [hs] at side; cases side
  · intro hs floor hfloor hpos
    exact stopLossHit_false (sideGates_floor hs hside) hfloor hpos
  · intro hs
    generalize plan.side = side at hplan
    cases hplan with
    | buy side _ _ cash => exact cash
    | sell side => rw [hs] at side; cases side
    | other side => rw [hs] at side; cases side

/-! ## What a call does -/

/-- Everything a call can do, with what it has checked on the way. -/
inductive SignalCase (pw : DecPow) (cfg : Settings)
    (now retrievedAt : Time) (db : Db) (s : Signal) :
    List Request → Executed → Prop
  | raised (requests : List Request) (passed : requests ≠ [] → GatesPass cfg now db s) :
      SignalCase pw cfg now retrievedAt db s requests .raised
  | deferred (off : cfg.orderKillSwitch = true) :
      SignalCase pw cfg now retrievedAt db s [] (.deferred
        { db with signals := bumpDeferrals s.id db.signals })
  | delayed (on : cfg.orderKillSwitch = false) :
      SignalCase pw cfg now retrievedAt db s [] (.deferred db)
  | skipped (requests : List Request) (db' : Db) (reason : MissReason)
      (evidence : Option BookEvidence)
      (account : db' = db ∨ db' = withAccount cfg db) (passed : requests ≠ [] →
        GatesPass cfg now db s) :
      SignalCase pw cfg now retrievedAt db s requests
        (.skipped reason (recordSkip cfg db' s reason now evidence))
  | filled (requests : List Request) (db' : Db) (plan : Plan) (book : Json)
      (fill : Fill) (snapshot : BookSnapshot)
      (feeInfo : Json) (fee : ℚ) (marketFee : MarketFee)
      (gates : executeGates cfg now db s = (db', .request plan))
      (walk : afterBook cfg s plan book = .ok (.fill fill snapshot))
      (charge : afterFee pw cfg plan fill feeInfo = .ok (.fill fee marketFee)) :
      SignalCase pw cfg now retrievedAt db s requests
        (.filled (commitFill cfg db' s now retrievedAt fill snapshot fee marketFee))

theorem executeLogged_case (pw : DecPow) (cfg : Settings)
    (now retrievedAt : Time) (db : Db) (s : Signal) (book : String → Except Exc Json)
    (feeInfo : String → Except Exc Json) :
    SignalCase pw cfg now retrievedAt db s (executeLogged pw cfg now retrievedAt db s book feeInfo).1
      (executeLogged pw cfg now retrievedAt db s book feeInfo).2 := by
  unfold executeLogged
  cases hg : executeGates cfg now db s with
  | mk db' gates =>
    cases gates with
    | raised => exact .raised [] fun h => absurd rfl h
    | deferred =>
      rcases executeGates_deferred hg with ⟨hkill, rfl⟩ | ⟨hkill, rfl⟩
      · exact .deferred hkill
      · exact .delayed hkill
    | skip reason => exact .skipped [] db' reason none (executeGates_skip hg) fun h => absurd rfl h
    | request plan =>
      obtain ⟨-, hdb, -⟩ := executeGates_request hg
      have hpass := gatesPass_of_request hg
      dsimp only
      cases hbook : (book plan.tokenId).bind (afterBook cfg s plan) with
      | error e => exact .raised _ fun _ => hpass
      | ok outcome =>
        obtain ⟨response, -, hwalk⟩ := bind_ok hbook
        cases outcome with
        | skip reason evidence => exact .skipped _ db' reason (some evidence) hdb fun _ => hpass
        | fill fill snapshot =>
          dsimp only
          cases hfee : (feeInfo plan.conditionId).bind (afterFee pw cfg plan fill) with
          | error e => exact .raised _ fun _ => hpass
          | ok outcome =>
            obtain ⟨info, -, hcharge⟩ := bind_ok hfee
            cases outcome with
            | skip reason =>
              exact .skipped _ db' reason (some (bookEvidence fill snapshot)) hdb fun _ => hpass
            | fill fee marketFee =>
              exact .filled _ db' plan response fill snapshot info fee marketFee hg hwalk hcharge

/-! ## The gates after it -/

/-- What holds of the order of a fill: of the database the gates read, and of the one it leaves. -/
structure FillGates (cfg : Settings) (db after : Db) (s : Signal) (size price fee : ℚ) : Prop where
  price_pos : 0 < price
  price_le : price ≤ 1
  size_pos : 0 < size
  notional : size * price ≤ cfg.maxOrderSizeUsd
  zone : s.side = .buy → price < cfg.maxCopyPrice
  caps : s.side = .buy → globalExposure db + size * price + fee ≤ cfg.maxExposureGlobalUsd ∧
    marketExposure db s.marketId + size * price + fee ≤ cfg.maxExposurePerMarketUsd
  exposure : s.side = .buy → 0 ≤ ownedShares db s →
    globalExposure after ≤ cfg.maxExposureGlobalUsd ∧
    marketExposure after s.marketId ≤ cfg.maxExposurePerMarketUsd
  cash : s.side = .buy → size * price + fee ≤ (accountOf cfg db).balance - globalExposure db
  owned : s.side = .sell → size ≤ ownedShares db s

/-- A BUY at or above the price cap is not filled. -/
theorem afterBook_zone {cfg : Settings} {s : Signal} {plan : Plan} {book : Json} {fill : Fill}
    {snapshot : BookSnapshot} (h : afterBook cfg s plan book = .ok (.fill fill snapshot))
    (hs : s.side = .buy) :
    fill.fillPrice < cfg.maxCopyPrice := by
  obtain ⟨jb, -, h⟩ := bind_ok h
  obtain ⟨bids, -, h⟩ := bind_ok h
  obtain ⟨ja, -, h⟩ := bind_ok h
  obtain ⟨asks, -, h⟩ := bind_ok h
  obtain ⟨r, hr, h⟩ := bind_ok h
  split at h
  · cases h
  · split at h
    · cases h
    · next hzone =>
      obtain ⟨rfl, rfl⟩ := BookOutcome.fill.inj (Except.ok.inj h)
      exact not_le.mp fun hle => hzone ⟨hs, hle⟩

/-- The limits a side puts on the fill. -/
theorem sideOk_fill {cfg : Settings} {db : Db} {s : Signal} {plan : Plan} {fill : Fill} {fee : ℚ}
    (hside : SideOk cfg db s plan.side) (hcap : ∀ r, plan.owned = some r → fill.filledSize ≤ r)
    (hgates : feeGates cfg plan fill fee = none) :
    (s.side = .buy → globalExposure db + fill.filledSize * fill.fillPrice +
      fee ≤ cfg.maxExposureGlobalUsd ∧
      marketExposure db s.marketId + fill.filledSize * fill.fillPrice + fee ≤
        cfg.maxExposurePerMarketUsd ∧
      fill.filledSize * fill.fillPrice + fee ≤ (accountOf cfg db).balance - globalExposure db) ∧
    (s.side = .sell → fill.filledSize ≤ ownedShares db s) := by
  unfold Plan.owned at hcap
  cases hp : plan.side with
  | buy g m c =>
    rw [hp] at hside
    cases hside with
    | buy side => exact ⟨fun _ => feeGates_buy hp hgates, fun hs => by rw [hs] at side; cases side⟩
  | sell o =>
    rw [hp] at hside hcap
    cases hside with
    | sell side => exact ⟨fun hs => (by rw [hs] at side; cases side), fun _ => hcap _ rfl⟩
  | other =>
    rw [hp] at hside
    cases hside with
    | other side =>
      exact ⟨fun hs => (by rw [hs] at side; cases side), fun hs => by rw [hs] at side; cases side⟩

/-- The exposure a BUY leaves. -/
theorem buy_exposure {cfg : Settings} {db : Db} {s : Signal} {fill : Fill} (hs : s.side = .buy)
    (hsize : 0 < fill.filledSize) (howned : 0 ≤ ownedShares db s) (now retrievedAt : Time)
    (snapshot : BookSnapshot) (fee : ℚ) (marketFee : MarketFee) :
    globalExposure (commitFill cfg db s now retrievedAt fill snapshot fee marketFee) =
      globalExposure db + fill.filledSize * fill.fillPrice + fee ∧
    marketExposure (commitFill cfg db s now retrievedAt fill snapshot fee marketFee) s.marketId =
      marketExposure db s.marketId + fill.filledSize * fill.fillPrice + fee := by
  obtain ⟨hglobal, hmarket⟩ :=
    fill_exposure cfg db s now retrievedAt fill snapshot fee marketFee s.marketId
  have hcost : ((positionFor db s).fill s.side fill fee).cost = (positionFor db s).cost +
      (fill.filledSize * fill.fillPrice + fee) := by
    unfold Position.fill
    rw [if_pos hs]
    rw [ownedShares_eq] at howned
    exact Position.buy_cost _ _ _ _ howned hsize
  rw [hcost] at hglobal hmarket
  rw [if_pos rfl] at hmarket
  rw [hglobal, hmarket]
  constructor <;> ring

theorem fillGates_of_fill {pw : DecPow} {cfg : Settings}
    {now retrievedAt : Time} {db db' : Db} {s : Signal} {plan : Plan} {book feeInfo : Json}
    {fill : Fill} {snapshot : BookSnapshot} {fee : ℚ} {marketFee : MarketFee}
    (gates : executeGates cfg now db s = (db', .request plan))
    (walk : afterBook cfg s plan book = .ok (.fill fill snapshot))
    (charge : afterFee pw cfg plan fill feeInfo = .ok (.fill fee marketFee)) :
    FillOk cfg.maxOrderSizeUsd plan.owned fill ∧
      FillGates cfg db (commitFill cfg db' s now retrievedAt fill snapshot fee marketFee)
        s fill.filledSize
        fill.fillPrice fee := by
  obtain ⟨hreq, hdb, -⟩ := executeGates_request gates
  obtain ⟨hwalk, -⟩ := afterBook_fill (owned_nonneg hreq.side) walk
  obtain ⟨-, hgates⟩ := afterFee_fill charge
  obtain ⟨hbuy, hsell⟩ := sideOk_fill hreq.side hwalk.within_cap hgates
  -- creating the account leaves the positions as they are
  have hsame : globalExposure db' = globalExposure db ∧
      marketExposure db' s.marketId = marketExposure db s.marketId ∧
      ownedShares db' s = ownedShares db s := by
    rcases hdb with rfl | rfl <;> exact ⟨rfl, rfl, rfl⟩
  refine ⟨hwalk, hwalk.price_pos, hwalk.price_le, hwalk.size_pos,
    hwalk.notional_le, afterBook_zone walk,
    fun hs => ⟨(hbuy hs).1, (hbuy hs).2.1⟩, fun hs howned => ?_, fun hs => (hbuy hs).2.2, hsell⟩
  rw [← hsame.2.2] at howned
  obtain ⟨hglobal, hmarket⟩ :=
    buy_exposure hs hwalk.size_pos howned now retrievedAt snapshot fee marketFee
  rw [hglobal, hmarket, hsame.1, hsame.2.1]
  exact ⟨(hbuy hs).1, (hbuy hs).2.1⟩

theorem commitFill_order (cfg : Settings) (db : Db) (s : Signal)
    (now retrievedAt : Time) (fill : Fill) (snapshot : BookSnapshot) (fee : ℚ)
    (marketFee : MarketFee) :
    (commitFill cfg db s now retrievedAt fill snapshot fee marketFee).paperOrders = db.paperOrders ++
      [filledOrder cfg s now retrievedAt fill snapshot fee marketFee
        ((positionFor db s).fillDelta s.side fill fee)] := by
  rw [commitFill_eq]
  rfl

/-- A call that returns a filled or partial order has passed every gate, before the snapshot and
after it, and a call one of whose gates before the snapshot fails asks the CLOB for nothing. -/
theorem fill_implies_gates (pw : DecPow) (cfg : Settings)
    (now retrievedAt : Time) (db : Db) (s : Signal) (book feeInfo : String → Except Exc Json)
    (requests : List Request) (result : Executed)
    (h : executeLogged pw cfg now retrievedAt db s book feeInfo = (requests, result)) :
    (∀ o, result.order = some o → o.status = .filled ∨ o.status = .partialFill →
      GatesPass cfg now db s ∧ ∃ size price fee, o.filledSize = some size ∧
        o.fillPrice = some price ∧
        o.fee = some fee ∧ FillGates cfg db (result.db db) s size price fee) ∧
    (¬ GatesPass cfg now db s → requests = []) := by
  have hcase := executeLogged_case pw cfg now retrievedAt db s book feeInfo
  rw [h] at hcase
  dsimp only at hcase
  cases hcase with
  | raised _ passed =>
    exact ⟨fun o ho => (by cases ho), fun hfail => not_not.mp fun hne => hfail (passed hne)⟩
  | deferred => exact ⟨fun o ho => (by cases ho), fun _ => rfl⟩
  | delayed => exact ⟨fun o ho => (by cases ho), fun _ => rfl⟩
  | skipped _ db' reason evidence account passed =>
    refine ⟨fun o ho hfill => ?_, fun hfail => not_not.mp fun hne => hfail (passed hne)⟩
    have hlast : (db'.paperOrders ++ [missedOrder cfg s reason now evidence]).getLast? = some o := ho
    rw [List.getLast?_concat] at hlast
    obtain rfl := Option.some.inj hlast
    rcases hfill with hfill | hfill <;> cases hfill
  | filled _ db' plan response fill snapshot info fee marketFee gates walk charge =>
    have hpass := gatesPass_of_request gates
    refine ⟨fun o ho _ => ⟨hpass, ?_⟩, fun hfail => absurd hpass hfail⟩
    have hlast : (commitFill cfg db' s now retrievedAt fill snapshot fee
      marketFee).paperOrders.getLast? = some o := ho
    rw [commitFill_order, List.getLast?_concat] at hlast
    obtain rfl := Option.some.inj hlast
    exact ⟨_, _, _, rfl, rfl, rfl, (fillGates_of_fill gates walk charge).2⟩

/-- A wallet approved, its BUY detected and the review delay over. -/
def dueBuy : Sys := outcome liveSettings
    (enrol ++ [.ingestTrade (sampleTrade 1 "a" 1 .buy 0)] ++ startCycle ++ [.tick 30])

def dueSignal : Signal := Signal.ofTrade 1 (sampleTrade 1 "a" 1 .buy 0)

/-- What the call on it does on a flat book, without a fee. -/
def dueCall : List Request × Executed :=
  executeLogged natPow liveSettings 30 30 dueBuy.db dueSignal
    (fun _ => .ok (flatBook "0.5")) (fun _ => .ok noFee)

theorem fill_implies_gates_due : dueCall.1 = [.orderBook "token", .marketInfo "0xm"] ∧
    GatesPass liveSettings 30 dueBuy.db dueSignal ∧
    ∃ size price fee, FillGates liveSettings dueBuy.db
      (dueCall.2.db dueBuy.db) dueSignal size price fee := by
  have hgates := (fill_implies_gates natPow liveSettings 30 30 dueBuy.db dueSignal
    (fun _ => .ok (flatBook "0.5"))
    (fun _ => .ok noFee) dueCall.1 dueCall.2 rfl).1
  have hstatus : dueCall.2.order.map PaperOrder.status = some .filled := by decide +kernel
  obtain ⟨o, ho, hfilled⟩ := Option.map_eq_some_iff.mp hstatus
  obtain ⟨hpass, size, price, fee, -, -, -, hfill⟩ := hgates o ho (.inl hfilled)
  exact ⟨by decide +kernel, hpass, size, price, fee, hfill⟩

end Polycopy
