import Polycopy.System

/-!
# What a step of the system writes

Every step, whoever takes it, is a sequence of the `Effect`s below: the books of
the bot (signals, orders, positions, bankroll, its log) change in six ways only,
each with what was checked before.  `Step.effects` is the one place where the
steps are taken apart; an invariant of the books is then shown once per effect
and holds of every run by `books_inv`.
-/

namespace Polycopy

/-! ## The books -/

def PaperOrder.isFill (o : PaperOrder) : Bool := o.status = .filled || o.status = .partialFill

def PaperOrder.notional (o : PaperOrder) : ℚ := o.filledSize.getD 0 * o.fillPrice.getD 0

/-- Log entries that go with an order or a position. -/
def Decision.isBook : Decision → Bool
  | .signalSkipped _ _ _ | .paperOrderExecuted _ _ _ _ _ _ _ _ _
  | .paperPositionSettled _ _ _ _ _ _ _ _ => true
  | _ => false

def bookLog (db : Db) : List DecisionLogEntry := db.decisionLog.filter fun e => e.decision.isBook

/-- Nothing of the books changed, except that the account row may have been
created or its limits set. -/
structure SameBooks (cfg : Settings) (db db' : Db) : Prop where
  signals : db'.signals = db.signals
  paperOrders : db'.paperOrders = db.paperOrders
  positions : db'.positions = db.positions
  ledger : db'.ledger = db.ledger
  starting : (accountOf cfg db').startingBankrollUsd = (accountOf cfg db).startingBankrollUsd
  realized : (accountOf cfg db').realizedPnlTotal = (accountOf cfg db).realizedPnlTotal
  withdrawn : (accountOf cfg db').withdrawnTotal = (accountOf cfg db).withdrawnTotal
  created : db.account.isSome = true → db'.account.isSome = true
  log : bookLog db' = bookLog db

/-- The account's totals are as they were. -/
structure SameMoney (cfg : Settings) (db db' : Db) : Prop where
  starting : (accountOf cfg db').startingBankrollUsd = (accountOf cfg db).startingBankrollUsd
  realized : (accountOf cfg db').realizedPnlTotal = (accountOf cfg db).realizedPnlTotal
  withdrawn : (accountOf cfg db').withdrawnTotal = (accountOf cfg db).withdrawnTotal

theorem SameMoney.balance {cfg : Settings} {db db' : Db} (h : SameMoney cfg db db') :
    (accountOf cfg db').balance = (accountOf cfg db).balance := by
  unfold BankrollAccount.balance
  rw [h.starting, h.realized, h.withdrawn]

theorem SameMoney.trans {cfg : Settings} {db db' db'' : Db} (h : SameMoney cfg db db')
    (h' : SameMoney cfg db' db'') : SameMoney cfg db db'' :=
  ⟨h'.starting.trans h.starting, h'.realized.trans h.realized, h'.withdrawn.trans h.withdrawn⟩

theorem sameMoney_of_account {cfg : Settings} {db db' : Db}
    (h : accountOf cfg db' = accountOf cfg db) :
    SameMoney cfg db db' := ⟨by rw [h], by rw [h], by rw [h]⟩

theorem sameMoney_of_row {cfg : Settings} {db db' : Db} (h : db'.account = db.account) :
    SameMoney cfg db db' := by
  refine sameMoney_of_account ?_
  unfold accountOf
  rw [h]

namespace SameBooks

variable {cfg : Settings} {db db' db'' : Db}

theorem refl (cfg : Settings) (db : Db) : SameBooks cfg db db :=
  ⟨rfl, rfl, rfl, rfl, rfl, rfl, rfl, id, rfl⟩

theorem trans (h : SameBooks cfg db db') (h' : SameBooks cfg db' db'') : SameBooks cfg db db'' :=
  ⟨h'.signals.trans h.signals, h'.paperOrders.trans h.paperOrders, h'.positions.trans h.positions,
    h'.ledger.trans h.ledger, h'.starting.trans h.starting, h'.realized.trans h.realized,
    h'.withdrawn.trans h.withdrawn, fun hs => h'.created (h.created hs), h'.log.trans h.log⟩

theorem money (h : SameBooks cfg db db') : SameMoney cfg db db' :=
  ⟨h.starting, h.realized, h.withdrawn⟩

theorem signal (h : SameBooks cfg db db') (id : Nat) : db'.signal id = db.signal id := by
  unfold Db.signal
  rw [h.signals]

theorem position (h : SameBooks cfg db db') (key : Nat × Nat × String) :
    db'.position key = db.position key := by
  unfold Db.position
  rw [h.positions]

end SameBooks

theorem withAccount_same (cfg : Settings) (db : Db) : SameBooks cfg db (withAccount cfg db) :=
  ⟨rfl, rfl, rfl, rfl, rfl, rfl, rfl, fun _ => rfl, rfl⟩

theorem sideOk_same {cfg : Settings} {db db' : Db} {s : Signal} {side : SidePlan}
    (h : SameBooks cfg db db') (hs : SideOk cfg db s side) : SideOk cfg db' s side := by
  have hg : globalExposure db' = globalExposure db := by unfold globalExposure; rw [h.positions]
  have hm : marketExposure db' s.marketId = marketExposure db s.marketId := by
    unfold marketExposure; rw [h.positions]
  have ho : ownedShares db' s = ownedShares db s := by unfold ownedShares; rw [h.position]
  cases hs with
  | buy side hgc hmc hc =>
    rw [← hg, ← hm, ← h.money.balance] at *
    exact .buy side hgc hmc hc
  | sell side owned =>
    rw [← ho] at *
    exact .sell side owned
  | other side => exact .other side

/-! ## Other processes leave the books alone -/

theorem bookLog_log (db : Db) (actor : String) (d : Decision) :
    bookLog (db.log actor d) = bookLog db ++ if d.isBook then [⟨actor, d⟩] else [] := by
  unfold bookLog Db.log
  rw [List.filter_append]
  cases h : d.isBook <;> simp [h]

theorem bookLog_note (db : Db) (actor : String) (d : Decision) (h : d.isBook = false) :
    bookLog (db.log actor d) = bookLog db := by
  rw [bookLog_log, h]
  exact List.append_nil _

theorem transitionWallet_ok {now : Time} {walletId : Nat} {action : TransitionAction} {db db' : Db}
    (h : transitionWallet now walletId action db = .ok db') :
    ∃ w queue, db.wallet walletId = some w ∧ w.approvalState = (allowedTransitions action).1 ∧
      db' = { db with
        wallets := Keyed.update Wallet.id walletId
          (Wallet.moveTo (allowedTransitions action).2 now) db.wallets
        approvalQueue := queue }.log "human:api" (.walletTransition action w.address
          (allowedTransitions action).1 (allowedTransitions action).2) := by
  unfold transitionWallet at h
  dsimp only at h
  split at h
  · cases h
  · next w hw =>
    split at h
    · cases h
    · next hs =>
      split at h
      · cases h
      · next queue _ =>
        exact ⟨w, queue, hw, not_not.mp hs, (Except.ok.inj h).symm⟩

theorem applyVerdict_ok {now : Time} {verdict : String} {walletId : Nat} {db db' : Db}
    (h : applyVerdict now verdict walletId db = .ok db') :
    db' = db ∨ ∃ w target queue, db.wallet walletId = some w ∧
      (w.approvalState = .discovered ∨ w.approvalState = .pendingReview) ∧
      (target = .discovered ∨ target = .pendingReview) ∧
      db' = { db with
        wallets := Keyed.update Wallet.id walletId (Wallet.moveTo target now) db.wallets
        approvalQueue := queue } := by
  unfold applyVerdict at h
  split at h
  · exact Or.inl (Except.ok.inj h).symm
  · next w hw =>
    split at h
    · exact Or.inl (Except.ok.inj h).symm
    · next hstate =>
      have hna : w.approvalState = .discovered ∨ w.approvalState = .pendingReview := by
        by_contra hne
        exact hstate (not_or.mp hne)
      dsimp only at h
      split at h
      · split at h
        · cases h
        · exact Or.inr ⟨w, _, _, hw, hna, Or.inr rfl, (Except.ok.inj h).symm⟩
      · split at h
        · exact Or.inr ⟨w, _, _, hw, hna, Or.inl rfl, (Except.ok.inj h).symm⟩
        · exact Or.inl (Except.ok.inj h).symm

theorem addWallet_ok {tx : Py.Text} {address : String} {label : Option String} {db db' : Db}
    (h : addWallet tx address label db = .ok db') :
    db' = { db with wallets := db.wallets ++
      [(⟨Keyed.fresh Wallet.id db.wallets, tx.lower address, .discovered, none⟩ : Wallet)] }.log
        "human:api" (.walletAdded (tx.lower address) label) := by
  unfold addWallet at h
  split at h
  · cases h
  · exact (Except.ok.inj h).symm

theorem updateBankrollSettings_same (cfg : Settings) (p l : Option ℚ) (db : Db) :
    SameBooks cfg db (updateBankrollSettings cfg p l db) := by
  unfold updateBankrollSettings
  rw [getOrCreate_withAccount]
  dsimp only
  split
  · exact ⟨rfl, rfl, rfl, rfl, rfl, rfl, rfl, fun _ => rfl,
      bookLog_note _ _ _ rfl⟩
  · exact ⟨rfl, rfl, rfl, rfl, rfl, rfl, rfl, fun _ => rfl, rfl⟩

theorem Elsewhere.same {tx : Py.Text} {cfg : Settings} {now : Time} {db db' : Db} {e : Event}
    (h : Elsewhere tx cfg now db e db') : SameBooks cfg db db' := by
  cases h with
  | ingestTrade | ingestMarket | resolve | backfill | throttle =>
    exact ⟨rfl, rfl, rfl, rfl, rfl, rfl, rfl, id, rfl⟩
  | addWallet _ address label h =>
    rw [addWallet_ok h]
    exact ⟨rfl, rfl, rfl, rfl, rfl, rfl, rfl, id, bookLog_note _ _ _ rfl⟩
  | transition _ walletId action h =>
    obtain ⟨w, queue, -, -, rfl⟩ := transitionWallet_ok h
    exact ⟨rfl, rfl, rfl, rfl, rfl, rfl, rfl, id, bookLog_note _ _ _ rfl⟩
  | verdict _ verdict walletId h =>
    obtain rfl | ⟨w, target, queue, -, -, -, rfl⟩ := applyVerdict_ok h
    · exact SameBooks.refl cfg _
    · exact ⟨rfl, rfl, rfl, rfl, rfl, rfl, rfl, id, rfl⟩
  | settings p l => exact updateBankrollSettings_same cfg p l db
  | overview => exact withAccount_same cfg db

theorem Elsewhere.account_eq {tx : Py.Text} {cfg : Settings} {now : Time} {db db' : Db} {e : Event}
    (h : Elsewhere tx cfg now db e db') (he : e.touchesAccount = false) :
    db'.account = db.account := by
  cases h with
  | ingestTrade | ingestMarket | resolve | backfill | throttle => rfl
  | addWallet _ address label h => rw [addWallet_ok h]; rfl
  | transition _ walletId action h =>
    obtain ⟨w, queue, -, -, rfl⟩ := transitionWallet_ok h
    rfl
  | verdict _ verdict walletId h =>
    obtain rfl | ⟨w, target, queue, -, -, -, rfl⟩ := applyVerdict_ok h <;> rfl
  | settings => cases he
  | overview => cases he

/-- What holds of the session's view goes on holding while other processes commit. -/
theorem view_same {tx : Py.Text} {cfg : Settings} {now : Time}
    {db db' : Db} {e : Event} (ss : Session) (h : Elsewhere tx cfg now db e db')
    (lock : e.touchesAccount = true → db.account = none → ss.account = none) :
    SameBooks cfg (ss.view db) (ss.view db') := by
  have hb := h.same
  have hview : ∀ d : Db, d.account.isSome = true ∨ ss.account = none →
      accountOf cfg (ss.view d) = accountOf cfg d := by
    intro d hd
    unfold accountOf Session.view
    cases hda : d.account with
    | some a => rfl
    | none =>
      rcases hd with hd | hd
      · rw [hda] at hd; cases hd
      · rw [hd]; rfl
  have key : (accountOf cfg (ss.view db') = accountOf cfg db' ∧
      accountOf cfg (ss.view db) = accountOf cfg db) ∨
      accountOf cfg (ss.view db') = accountOf cfg (ss.view db) := by
    cases hda : db.account with
    | some a =>
      have hs : db.account.isSome = true := by rw [hda]; rfl
      exact Or.inl ⟨hview db' (Or.inl (hb.created hs)), hview db (Or.inl hs)⟩
    | none =>
      cases he : e.touchesAccount with
      | true =>
        have hn := lock he hda
        exact Or.inl ⟨hview db' (Or.inr hn), hview db (Or.inr hn)⟩
      | false =>
        right
        unfold accountOf Session.view
        rw [h.account_eq he]
  refine ⟨?_, hb.paperOrders, hb.positions, hb.ledger, ?_, ?_, ?_, ?_, hb.log⟩
  · unfold Session.view; rw [hb.signals]
  · rcases key with ⟨h1, h2⟩ | h1
    · rw [h1, h2]; exact hb.starting
    · rw [h1]
  · rcases key with ⟨h1, h2⟩ | h1
    · rw [h1, h2]; exact hb.realized
    · rw [h1]
  · rcases key with ⟨h1, h2⟩ | h1
    · rw [h1, h2]; exact hb.withdrawn
    · rw [h1]
  · unfold Session.view
    dsimp only
    intro hs
    cases hda : db.account with
    | some a =>
      have := hb.created (by rw [hda]; rfl)
      cases hdb : db'.account with
      | some a' => rfl
      | none => rw [hdb] at this; cases this
    | none =>
      rw [hda] at hs
      cases hdb : db'.account with
      | some a' => rfl
      | none => exact hs

/-! ## Effects -/

/-- The keys of the bot's tables. -/
structure Tables (db : Db) : Prop where
  signalIds : (db.signals.map Signal.id).Nodup
  sources : (db.signals.map Signal.sourceTradeId).Nodup
  positionKeys : (db.positions.map Position.key).Nodup
  positionIds : (db.positions.map Position.id).Nodup

/-- The signal the bot is executing is the stored row, still pending. -/
structure Held (db : Db) (s : Signal) : Prop where
  row : db.signal s.id = some s
  pending : s.status = .pending

/-- All that was checked before a fill is written. -/
structure FillGuard (cfg : Settings) (db : Db) (s : Signal) (plan : Plan)
    (fill : Fill) (fee : ℚ) : Prop where
  held : Held db s
  side : SideOk cfg db s plan.side
  walk : FillOk cfg.maxOrderSizeUsd plan.owned fill
  traded : s.side = .buy ∨ s.side = .sell
  fee_nonneg : 0 ≤ fee
  gates : feeGates cfg plan fill fee = none
  opened : s.side = .buy → db.account.isSome = true

inductive Effect (cfg : Settings) : Db → Db → Prop
  | same {db db' : Db} (h : SameBooks cfg db db') : Effect cfg db db'
  | detected (db : Db) (t : Trade) (new : ∀ s ∈ db.signals, s.sourceTradeId ≠ t.polymarketTradeId) :
      Effect cfg db (addSignal db t)
  | deferred (db : Db) (id : Nat) : Effect cfg db { db with signals := bumpDeferrals id db.signals }
  | missed (db : Db) (s : Signal) (reason : MissReason) (now : Time) (book : Option BookEvidence)
      (held : Held db s) : Effect cfg db (recordSkip cfg db s reason now book)
  | filled (db : Db) (s : Signal) (plan : Plan) (now retrievedAt : Time) (fill : Fill)
      (snapshot : BookSnapshot) (fee : ℚ) (marketFee : MarketFee)
        (guard : FillGuard cfg db s plan fill fee) :
      Effect cfg db (commitFill cfg db s now retrievedAt fill snapshot fee marketFee)
  | settled (db : Db) (p : Position) (st : Settlement) (now : Time) (mem : p ∈ db.positions)
      (isOpen : p.isOpen = true) (settlement : db.settlement p.marketId = some st) :
      Effect cfg db (settlePosition cfg now db (p, st))
  | swept (db : Db) (limit amount : ℚ) (limit_pos : 0 < limit) (amount_pos : 0 < amount)
      (le_pile : amount ≤ unwithdrawn (accountOf cfg db))
      (le_free : amount ≤ (accountOf cfg db).balance - openPositionCost db) :
      Effect cfg db (postWithdrawal (withAccount cfg db) (accountOf cfg db) limit amount)

abbrev Effects (cfg : Settings) : Db → Db → Prop := Relation.ReflTransGen (Effect cfg)

/-! ## What the writes do to each table -/

/-- The position after the fill. -/
def Position.fill (p : Position) (side : Side) (fill : Fill) (fee : ℚ) : Position :=
  if side = .buy then p.buy fill.filledSize fill.fillPrice fee
  else p.sell fill.filledSize fill.fillPrice fee

/-- `order.realized_pnl_delta`. -/
def Position.fillDelta (p : Position) (side : Side) (fill : Fill) (fee : ℚ) : Option ℚ :=
  if side = .buy then none else some (p.sellDelta fill.filledSize fill.fillPrice fee)

/-- The bankroll after the fill. -/
def postFill (cfg : Settings) (db : Db) (s : Signal) (delta : Option ℚ) : Db :=
  match delta with
  | none => db
  | some d => postRealizedPnl cfg db d (.paperSell s.id s.sourceTradeId s.marketId s.outcome)

theorem commitFill_eq (cfg : Settings) (db : Db) (s : Signal) (now retrievedAt : Time) (fill : Fill)
    (snapshot : BookSnapshot) (fee : ℚ) (marketFee : MarketFee) :
    commitFill cfg db s now retrievedAt fill snapshot fee marketFee =
      { db with
        positions := Keyed.put Position.key ((positionFor db s).fill s.side fill fee) db.positions
        paperOrders :=
          db.paperOrders ++ [filledOrder cfg s now retrievedAt fill snapshot fee marketFee
          ((positionFor db s).fillDelta s.side fill fee)]
        signals := setStatus .executed s.id db.signals
        account := (postFill cfg db s ((positionFor db s).fillDelta s.side fill fee)).account
        ledger := (postFill cfg db s
          ((positionFor db s).fillDelta s.side fill fee)).ledger }.log "bot"
        (.paperOrderExecuted s.id s.sourceTradeId fill.status fill.fillPrice
          s.sourcePrice fill.filledSize
          fill.depthAvailable fill.levelsConsumed fee) := by
  unfold commitFill applyFill Position.fill Position.fillDelta
  dsimp only
  by_cases h : s.side = .buy
  · rw [if_pos h, if_pos h, if_pos h]
    rfl
  · rw [if_neg h, if_neg h, if_neg h, postRealizedPnl_frame]
    rfl

/-- The bankroll after one settlement. -/
def postSettlement (cfg : Settings) (db : Db) (p : Position) (st : Settlement) : Db :=
  postRealizedPnl cfg db (settlementPnl p st)
    (.settlement p.id p.walletId p.marketId p.outcome st.winningOutcome)

theorem settlePosition_eq (cfg : Settings) (now : Time) (db : Db) (p : Position) (st : Settlement) :
    settlePosition cfg now db (p, st) =
      { db with
        positions := Keyed.put Position.key (p.settle st now) db.positions
        account := (postSettlement cfg db p st).account
        ledger := (postSettlement cfg db p st).ledger }.log "bot"
        (.paperPositionSettled p.id p.walletId p.marketId p.outcome st.winningOutcome p.quantity
          (settlePrice p st) p.avgPrice) := by
  unfold settlePosition
  dsimp only
  rw [postRealizedPnl_frame]
  rfl

/-! ## The keys stay keys -/

theorem fill_key (p : Position) (side : Side) (f : Fill) (fee : ℚ) :
    (p.fill side f fee).key = p.key := by
  unfold Position.fill
  split <;> rfl

theorem fill_id (p : Position) (side : Side) (f : Fill) (fee : ℚ) :
    (p.fill side f fee).id = p.id := by
  unfold Position.fill
  split <;> rfl

theorem positionFor_key (db : Db) (s : Signal) : (positionFor db s).key = s.positionKey := by
  unfold positionFor
  cases h : db.position s.positionKey with
  | none => rfl
  | some p => exact (Keyed.find_some Position.key h).2

theorem positionFor_marketId (db : Db) (s : Signal) : (positionFor db s).marketId = s.marketId :=
  congrArg (fun k => k.2.1) (positionFor_key db s)

/-- The row written for a position keeps its number, a new row gets an unused one. -/
theorem put_ids {db : Db} (ht : Tables db) {p : Position}
    (h : (∃ q, db.position p.key = some q ∧ q.id = p.id) ∨
      (db.position p.key = none ∧ p.id = Keyed.fresh Position.id db.positions)) :
    ((Keyed.put Position.key p db.positions).map Position.id).Nodup := by
  rcases h with ⟨q, hq, hid⟩ | ⟨hn, hid⟩
  · rw [Keyed.map_put_of_some Position.key Position.id hq hid.symm]
    exact ht.positionIds
  · rw [Keyed.put_of_none Position.key hn, List.map_append, List.nodup_append]
    refine ⟨ht.positionIds, List.nodup_singleton _, fun a ha b hb => ?_⟩
    obtain rfl := List.mem_singleton.mp hb
    rw [hid]
    exact fun e => Keyed.fresh_not_mem Position.id db.positions (e ▸ ha)

theorem positionFor_stored (db : Db) (s : Signal) (f : Fill) (fee : ℚ) :
    (∃ q, db.position ((positionFor db s).fill s.side f fee).key = some q ∧
      q.id = ((positionFor db s).fill s.side f fee).id) ∨
    (db.position ((positionFor db s).fill s.side f fee).key = none ∧
      ((positionFor db s).fill s.side f fee).id = Keyed.fresh Position.id db.positions) := by
  rw [fill_key, fill_id, positionFor_key]
  unfold positionFor
  cases h : db.position s.positionKey with
  | none => exact Or.inr ⟨rfl, rfl⟩
  | some p => exact Or.inl ⟨p, rfl, rfl⟩

theorem setStatus_map {β : Type} (g : Signal → β) (status : SignalStatus) (id : Nat)
    (hg : ∀ s : Signal, g { s with status := status } = g s) (signals : List Signal) :
    (setStatus status id signals).map g = signals.map g :=
  Keyed.map_update Signal.id g hg signals

theorem find_setStatus (status : SignalStatus) (id id' : Nat) (signals : List Signal) :
    Keyed.find Signal.id id' (setStatus status id signals) =
      (Keyed.find Signal.id id' signals).map fun s =>
      if s.id = id then { s with status := status } else s := by
  have hid : ∀ s : Signal, ({ s with status := status } : Signal).id = s.id := fun _ => rfl
  exact Keyed.find_update Signal.id hid signals

theorem bumpDeferrals_map {β : Type} (g : Signal → β) (id : Nat)
    (hg : ∀ (s : Signal) (n : Nat), g { s with killSwitchDeferrals := n } = g s)
    (signals : List Signal) :
    (bumpDeferrals id signals).map g = signals.map g :=
  Keyed.map_update Signal.id g (fun s => hg s _) signals

/-- A projection no deferral touches is the same in the session's view. -/
theorem view_signals {β : Type} (g : Signal → β)
    (hg : ∀ (s : Signal) (n : Nat), g { s with killSwitchDeferrals := n } = g s) (ss : Session)
    (db : Db) : (ss.view db).signals.map g = db.signals.map g := by
  obtain ⟨deferrals, account⟩ := ss
  induction deferrals with
  | nil => rfl
  | cons id l ih => exact (bumpDeferrals_map g id hg _).trans ih

theorem Effect.tables {cfg : Settings} {db db' : Db} (h : Effect cfg db db') (ht : Tables db) :
    Tables db' := by
  obtain ⟨h1, h2, h3, h4⟩ := ht
  cases h with
  | same h =>
    rw [← h.signals] at h1 h2
    rw [← h.positions] at h3 h4
    exact ⟨h1, h2, h3, h4⟩
  | detected t new =>
    refine ⟨?_, ?_, h3, h4⟩
    · exact Keyed.nodup_snoc Signal.id h1 (Keyed.fresh_not_mem Signal.id db.signals)
    · refine Keyed.nodup_snoc Signal.sourceTradeId h2 fun hm => ?_
      obtain ⟨s, hs, he⟩ := List.mem_map.mp hm
      exact new s hs he
  | deferred id =>
    refine ⟨?_, ?_, h3, h4⟩
    · rwa [bumpDeferrals_map Signal.id id (fun _ _ => rfl)]
    · rwa [bumpDeferrals_map Signal.sourceTradeId id (fun _ _ => rfl)]
  | missed s reason now book held =>
    refine ⟨?_, ?_, h3, h4⟩
    · show ((setStatus _ _ _).map Signal.id).Nodup
      rwa [setStatus_map Signal.id _ _ (fun _ => rfl)]
    · show ((setStatus _ _ _).map Signal.sourceTradeId).Nodup
      rwa [setStatus_map Signal.sourceTradeId _ _ (fun _ => rfl)]
  | filled s plan now retrievedAt fill snapshot fee marketFee guard =>
    rw [commitFill_eq]
    refine ⟨?_, ?_, ?_, ?_⟩
    · show ((setStatus _ _ _).map Signal.id).Nodup
      rwa [setStatus_map Signal.id _ _ (fun _ => rfl)]
    · show ((setStatus _ _ _).map Signal.sourceTradeId).Nodup
      rwa [setStatus_map Signal.sourceTradeId _ _ (fun _ => rfl)]
    · exact Keyed.put_nodup Position.key h3
    · exact put_ids ⟨h1, h2, h3, h4⟩ (positionFor_stored db s fill fee)
  | settled p st now mem isOpen settlement =>
    rw [settlePosition_eq]
    refine ⟨h1, h2, Keyed.put_nodup Position.key h3, put_ids ⟨h1, h2, h3, h4⟩ (Or.inl ⟨p, ?_, rfl⟩)⟩
    exact Keyed.find_of_mem Position.key h3 mem
  | swept limit amount _ _ _ _ => exact ⟨h1, h2, h3, h4⟩

/-! ## What the guard of a fill gives -/

theorem ownedShares_eq (db : Db) (s : Signal) : ownedShares db s = (positionFor db s).quantity := by
  unfold ownedShares positionFor
  cases db.position s.positionKey <;> rfl

/-- A SELL fill takes no more than the position holds, so `min` at the update does nothing. -/
theorem FillGuard.size_le {cfg : Settings} {db : Db} {s : Signal}
    {plan : Plan} {fill : Fill} {fee : ℚ} (h : FillGuard cfg db s plan fill fee)
    (hs : s.side = .sell) :
    fill.filledSize ≤ (positionFor db s).quantity := by
  have hside := h.side
  have hcap := h.walk.within_cap
  unfold Plan.owned at hcap
  cases hp : plan.side with
  | buy g m c =>
    rw [hp] at hside
    cases hside with
    | buy side => rw [hs] at side; cases side
  | other =>
    rw [hp] at hside
    cases hside with
    | other side => rw [hs] at side; cases side
  | sell o =>
    rw [hp] at hside hcap
    cases hside with
    | sell side owned =>
      rw [← ownedShares_eq]
      exact hcap _ rfl

/-- A BUY fill fits, with its fee, in both caps and in the cash. -/
theorem FillGuard.buy {cfg : Settings} {db : Db} {s : Signal} {plan : Plan} {fill : Fill} {fee : ℚ}
    (h : FillGuard cfg db s plan fill fee) (hs : s.side = .buy) :
    globalExposure db + (fill.filledSize * fill.fillPrice + fee) ≤ cfg.maxExposureGlobalUsd ∧
    marketExposure db s.marketId + (fill.filledSize * fill.fillPrice + fee) ≤
      cfg.maxExposurePerMarketUsd ∧
    fill.filledSize * fill.fillPrice + fee ≤ (accountOf cfg db).balance - globalExposure db := by
  have hside := h.side
  have hgates := h.gates
  cases hp : plan.side with
  | sell o =>
    rw [hp] at hside
    cases hside with
    | sell side => rw [hs] at side; cases side
  | other =>
    rw [hp] at hside
    cases hside with
    | other side => rw [hs] at side; cases side
  | buy g m c =>
    rw [hp] at hside
    obtain ⟨h1, h2, h3⟩ := feeGates_buy hp hgates
    cases hside with
    | buy side _ _ _ =>
      rw [add_assoc] at h1 h2
      exact ⟨h1, h2, h3⟩

theorem Position.buy_cost (p : Position) (size price fee : ℚ)
    (hq : 0 ≤ p.quantity) (hs : 0 < size) :
    (p.buy size price fee).cost = p.cost + (size * price + fee) := by
  have hpos : 0 < p.quantity + size := by linarith
  unfold Position.buy Position.cost
  dsimp only
  rw [if_pos hpos, mul_div_cancel₀ _ hpos.ne', add_assoc]

theorem Position.sellDelta_eq (p : Position) (size price fee : ℚ) (h : size ≤ p.quantity) :
    p.sellDelta size price fee = size * (price - p.avgPrice) - fee := by
  unfold Position.sellDelta
  rw [min_eq_right h]

theorem Position.sell_quantity (p : Position) (size price fee : ℚ) (h : size ≤ p.quantity) :
    (p.sell size price fee).quantity = p.quantity - size := by
  unfold Position.sell
  dsimp only
  rw [min_eq_right h]

theorem Position.sell_cost (p : Position) (size price fee : ℚ) (h : size ≤ p.quantity) :
    (p.sell size price fee).cost = p.cost - size * p.avgPrice := by
  unfold Position.cost
  rw [p.sell_quantity size price fee h]
  show (p.quantity - size) * p.avgPrice = _
  ring

theorem positionFor_nonneg {db : Db} (h : ∀ p ∈ db.positions, 0 ≤ p.quantity) (s : Signal) :
    0 ≤ (positionFor db s).quantity := by
  unfold positionFor
  cases hp : db.position s.positionKey with
  | none => exact le_refl _
  | some p => exact h p (Keyed.find_some Position.key hp).1

theorem fill_quantity_nonneg {cfg : Settings} {db : Db} {s : Signal}
    {plan : Plan} {fill : Fill} {fee : ℚ} (guard : FillGuard cfg db s plan fill fee)
    (hq : 0 ≤ (positionFor db s).quantity) :
    0 ≤ ((positionFor db s).fill s.side fill fee).quantity := by
  unfold Position.fill
  rcases guard.traded with hs | hs
  · rw [if_pos hs]
    exact add_nonneg hq guard.walk.size_pos.le
  · have hne : ¬ s.side = .buy := by rw [hs]; decide
    rw [if_neg hne, Position.sell_quantity _ _ _ _ (guard.size_le hs)]
    exact sub_nonneg.mpr (guard.size_le hs)

theorem fill_settlement (p : Position) (side : Side) (f : Fill) (fee : ℚ) :
    (p.fill side f fee).settlementRealizedPnl = p.settlementRealizedPnl ∧
    (p.fill side f fee).settledAt = p.settledAt := by
  unfold Position.fill
  split <;> exact ⟨rfl, rfl⟩

theorem filledOrder_isFill {cfg : Settings} {db : Db} {s : Signal}
    {plan : Plan} {fill : Fill} {fee : ℚ} (guard : FillGuard cfg db s plan fill fee)
    (now retrievedAt : Time) (snapshot : BookSnapshot) (marketFee : MarketFee)
    (delta : Option ℚ) :
    (filledOrder cfg s now retrievedAt fill snapshot fee marketFee delta).isFill = true := by
  rcases guard.walk.status with hst | hst <;> simp [PaperOrder.isFill, filledOrder, hst]

/-! ## Sums over the rows a fill or a settlement touches -/

/-- A new position counts for nothing in any of the sums. -/
theorem sum_put_position (db : Db) (s : Signal) (p : Position) (f : Position → ℚ)
    (hkey : p.key = s.positionKey) (hf : f (newPosition db.positions s) = 0) :
    ((Keyed.put Position.key p db.positions).map f).sum =
      (db.positions.map f).sum + f p - f (positionFor db s) := by
  rw [Keyed.sum_put, hkey]
  unfold positionFor Db.position
  cases Keyed.find Position.key s.positionKey db.positions with
  | none => rw [Option.map_none, Option.getD_none, Option.getD_none, hf]
  | some q => rfl

/-- Writing a stored row over itself. -/
theorem sum_put_stored {db : Db} (hn : (db.positions.map Position.key).Nodup) {p q : Position}
    (hq : q ∈ db.positions) (hkey : p.key = q.key) (f : Position → ℚ) :
    ((Keyed.put Position.key p db.positions).map f).sum = (db.positions.map f).sum + f p - f q := by
  rw [Keyed.sum_put, hkey, Keyed.find_of_mem Position.key hn hq]
  rfl

end Polycopy
