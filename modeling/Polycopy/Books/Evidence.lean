import Polycopy.Api.PaperEvidence
import Polycopy.Approval
import Polycopy.Books.Conservation

/-!
# The public evidence agrees with itself

Every order belongs to a stored signal of its wallet, each signal that is done
has one order of the matching kind, and each signal is for a trade with its
times.  So the counts of a report, current or lifetime, are counts of signals
by status; the realized P&L of a wallet splits into that of its orders and that
of its settlements.
-/

namespace Polycopy

/-! ## What the books hold about a wallet -/

/-- A signal's number and wallet, which its order repeats. -/
def Signal.owner (s : Signal) : Nat × Nat := (s.id, s.walletId)

def PaperOrder.owner (o : PaperOrder) : Nat × Nat := (o.signalId, o.walletId)

/-- What a row adds to the sums of one wallet. -/
def Position.unexplained (walletId : Nat) (p : Position) : ℚ :=
  if p.walletId = walletId then p.realizedPnl - p.settlementRealizedPnl.getD 0 else 0

def PaperOrder.delta (walletId : Nat) (o : PaperOrder) : ℚ :=
  if o.walletId = walletId then o.realizedPnlDelta.getD 0 else 0

structure EvidenceBooks (db : Db) : Prop where
  owned : ∀ o ∈ db.paperOrders, o.owner ∈ db.signals.map Signal.owner
  pnl : ∀ walletId, (db.positions.map (Position.unexplained walletId)).sum =
    (db.paperOrders.map (PaperOrder.delta walletId)).sum
  sold : ∀ o ∈ db.paperOrders, o.isFill = true → o.side = .sell → o.realizedPnlDelta.isSome = true
  unsettled : ∀ p ∈ db.positions, p.settledAt = none → p.settlementRealizedPnl = none
  settled : ∀ p ∈ db.positions, p.settledAt.isSome = true → p.settlementRealizedPnl.isSome = true

theorem evidenceBooks_empty : EvidenceBooks Db.empty where
  owned := fun _ h => (List.not_mem_nil h).elim
  pnl := fun _ => rfl
  sold := fun _ h => (List.not_mem_nil h).elim
  unsettled := fun _ h => (List.not_mem_nil h).elim
  settled := fun _ h => (List.not_mem_nil h).elim

variable {cfg : Settings} {db : Db}

theorem EvidenceBooks.missed (h : EvidenceBooks db) {s : Signal} (held : Held db s)
    (reason : MissReason) (now : Time)
    (book : Option BookEvidence) : EvidenceBooks (recordSkip cfg db s reason now book) := by
  have hsignals : (recordSkip cfg db s reason now book).signals.map Signal.owner =
      db.signals.map Signal.owner :=
    setStatus_map Signal.owner _ _ (fun _ => rfl) _
  have horders : (recordSkip cfg db s reason now book).paperOrders =
      db.paperOrders ++ [missedOrder cfg s reason now book] := rfl
  refine ⟨?_, ?_, ?_, h.unsettled, h.settled⟩
  · intro o ho
    rw [hsignals]
    rw [horders] at ho
    rcases List.mem_append.mp ho with ho | ho
    · exact h.owned o ho
    · obtain rfl := List.mem_singleton.mp ho
      exact List.mem_map_of_mem held.mem
  · intro walletId
    rw [horders, List.map_append, List.sum_append, ← h.pnl walletId]
    show (db.positions.map _).sum = _
    simp [PaperOrder.delta, missedOrder]
  · intro o ho hfill
    rw [horders] at ho
    rcases List.mem_append.mp ho with ho | ho
    · exact h.sold o ho hfill
    · obtain rfl := List.mem_singleton.mp ho
      cases hfill

theorem unexplained_fill (p : Position) (side : Side) (f : Fill) (fee : ℚ) (walletId : Nat) :
    (p.fill side f fee).unexplained walletId =
      p.unexplained walletId + if p.walletId = walletId then
      (p.fillDelta side f fee).getD 0 else 0 := by
  have hwallet : (p.fill side f fee).walletId = p.walletId :=
    congrArg Prod.fst (fill_key p side f fee)
  unfold Position.unexplained
  rw [hwallet, fill_realized, (fill_settlement p side f fee).1]
  by_cases h : p.walletId = walletId
  · simp only [if_pos h]
    ring
  · simp only [if_neg h, add_zero]

theorem EvidenceBooks.filled (h : EvidenceBooks db) {s : Signal}
    {plan : Plan} {fill : Fill} {fee : ℚ} (now retrievedAt : Time) (snapshot : BookSnapshot)
    (marketFee : MarketFee) (guard : FillGuard cfg db s plan fill fee) :
    EvidenceBooks (commitFill cfg db s now retrievedAt fill snapshot fee marketFee) := by
  have hkey : ((positionFor db s).fill s.side fill fee).key = s.positionKey := by
    rw [fill_key, positionFor_key]
  have hwallet : (positionFor db s).walletId = s.walletId :=
    congrArg Prod.fst (positionFor_key db s)
  obtain ⟨hfs, hfa⟩ := fill_settlement (positionFor db s) s.side fill fee
  have hrow : ∀ P : Position → Prop, P (newPosition db.positions s) →
      (∀ p ∈ db.positions, P p) → P (positionFor db s) := by
    intro P hnew hold
    unfold positionFor
    cases hp : db.position s.positionKey with
    | none => exact hnew
    | some p => exact hold p (Keyed.find_some Position.key hp).1
  rw [commitFill_eq]
  refine ⟨?_, ?_, ?_, ?_, ?_⟩
  · intro o ho
    show _ ∈ (setStatus _ _ _).map Signal.owner
    rw [setStatus_map Signal.owner _ _ (fun _ => rfl)]
    rcases List.mem_append.mp ho with ho | ho
    · exact h.owned o ho
    · obtain rfl := List.mem_singleton.mp ho
      exact List.mem_map_of_mem guard.held.mem
  · intro walletId
    have hnew : (newPosition db.positions s).unexplained walletId = 0 := by
      simp [Position.unexplained, newPosition]
    show ((Keyed.put _ _ _).map (Position.unexplained walletId)).sum =
      ((db.paperOrders ++ [_]).map _).sum
    rw [sum_put_position db s _ _ hkey hnew, unexplained_fill, hwallet, h.pnl,
      List.map_append, List.sum_append]
    simp only [List.map_cons, List.map_nil, List.sum_cons, List.sum_nil,
      PaperOrder.delta, filledOrder]
    ring
  · intro o ho hfill hside
    rcases List.mem_append.mp ho with ho | ho
    · exact h.sold o ho hfill hside
    · obtain rfl := List.mem_singleton.mp ho
      have hsell : s.side = .sell := hside
      show ((positionFor db s).fillDelta s.side fill fee).isSome = true
      unfold Position.fillDelta
      rw [if_neg (by rw [hsell]; decide)]
      rfl
  · intro p hp
    rcases Keyed.mem_put_of Position.key hp with rfl | hp
    · rw [hfs, hfa]
      exact hrow (fun p => p.settledAt = none →
        p.settlementRealizedPnl = none) (fun _ => rfl) h.unsettled
    · exact h.unsettled p hp
  · intro p hp
    rcases Keyed.mem_put_of Position.key hp with rfl | hp
    · rw [hfs, hfa]
      refine hrow (fun p => p.settledAt.isSome = true →
        p.settlementRealizedPnl.isSome = true) ?_ h.settled
      intro hsome
      cases hsome
    · exact h.settled p hp

theorem EvidenceBooks.settle (h : EvidenceBooks db) (ht : Tables db) {p : Position}
    (st : Settlement) (now : Time) (hp : p ∈ db.positions) (hopen : p.isOpen = true) :
    EvidenceBooks (settlePosition cfg now db (p, st)) := by
  have hnone : p.settlementRealizedPnl = none := by
    refine h.unsettled p hp ?_
    unfold Position.isOpen at hopen
    simpa using (Bool.and_eq_true_iff.mp hopen).2
  have hsum := sum_put_stored ht.positionKeys hp (rfl : (p.settle st now).key = p.key)
  rw [settlePosition_eq]
  refine ⟨h.owned, ?_, h.sold, ?_, ?_⟩
  · intro walletId
    have hsame : (p.settle st now).unexplained walletId = p.unexplained walletId := by
      unfold Position.unexplained
      rw [hnone]
      show (if p.walletId = walletId then p.realizedPnl +
        settlementPnl p st - settlementPnl p st else 0) =
        if p.walletId = walletId then p.realizedPnl - 0 else 0
      rw [add_sub_cancel_right, sub_zero]
    show ((Keyed.put _ _ _).map (Position.unexplained walletId)).sum = _
    rw [hsum, hsame, add_sub_cancel_right]
    exact h.pnl walletId
  · intro q hq hs
    rcases Keyed.mem_put_of Position.key hq with rfl | hq
    · cases hs
    · exact h.unsettled q hq hs
  · intro q hq hs
    rcases Keyed.mem_put_of Position.key hq with rfl | hq
    · rfl
    · exact h.settled q hq hs

theorem EvidenceBooks.effect {db' : Db} (ht : Tables db)
    (h : EvidenceBooks db) (he : Effect cfg db db') :
    EvidenceBooks db' := by
  cases he with
  | same hs =>
    refine ⟨?_, ?_, ?_, ?_, ?_⟩
    · rw [hs.paperOrders, hs.signals]
      exact h.owned
    · rw [hs.paperOrders, hs.positions]
      exact h.pnl
    · rw [hs.paperOrders]
      exact h.sold
    · rw [hs.positions]
      exact h.unsettled
    · rw [hs.positions]
      exact h.settled
  | detected t new =>
    refine ⟨fun o ho => ?_, h.pnl, h.sold, h.unsettled, h.settled⟩
    show _ ∈ (db.signals ++ [_]).map Signal.owner
    rw [List.map_append]
    exact List.mem_append_left _ (h.owned o ho)
  | deferred id =>
    refine ⟨fun o ho => ?_, h.pnl, h.sold, h.unsettled, h.settled⟩
    show _ ∈ (bumpDeferrals id db.signals).map Signal.owner
    rw [bumpDeferrals_map Signal.owner id (fun _ _ => rfl)]
    exact h.owned o ho
  | missed s reason now book held => exact h.missed held reason now book
  | filled s plan now retrievedAt fill snapshot fee marketFee guard =>
    exact h.filled now retrievedAt snapshot marketFee guard
  | settled p st now mem isOpen settlement => exact h.settle ht st now mem isOpen
  | swept limit amount => exact ⟨h.owned, h.pnl, h.sold, h.unsettled, h.settled⟩

theorem SysRun.evidenceBooks {pw : Py.DecPow} {tx : Py.Text} {t0 : Time}
    {tr : List (Event × Sys)} {s : Sys} (h : SysRun pw tx cfg t0 tr s) : EvidenceBooks s.db :=
  (h.books_inv (fun _ => True) (fun _ db => EvidenceBooks db) evidenceBooks_empty
    (fun _ _ _ ht hi he => hi.effect ht he) (fun _ _ _ _ _ hi => hi) trivial fun _ _ => trivial).2

/-! ## Orders of some signals, by status -/

theorem isFill_of_partial (o : PaperOrder) (h : decide (o.status = .partialFill) = true) :
    o.isFill = true := by
  unfold PaperOrder.isFill
  rw [h, Bool.or_true]

/-- A signal that is done has one order of the kind its status says, a pending one has none. -/
theorem recorded_counts {s : Signal} (h : Recorded db s) :
    (ordersOf db s.id).countP PaperOrder.isFill = (if s.status = .executed then 1 else 0) ∧
    (ordersOf db s.id).countP (fun o => o.status = .missed) =
      if s.status = .skipped then 1 else 0 := by
  unfold Recorded at h
  cases hst : s.status with
  | pending =>
    rw [hst] at h
    obtain ⟨ho, -⟩ := h
    simp [ho]
  | executed =>
    rw [hst] at h
    obtain ⟨o, ho, hfill, -⟩ := h
    have hne : o.status ≠ .missed := fun hm => by
      rw [missed_not_fill hm] at hfill
      cases hfill
    simp [ho, hfill, hne]
  | skipped =>
    rw [hst] at h
    obtain ⟨o, reason, ho, hm, -⟩ := h
    simp [ho, hm, missed_not_fill hm]

def pendingIn (signals : List Signal) : Nat := signals.countP fun s => s.status = .pending

theorem ordersFor_counts {signals : List Signal} (h : ∀ s ∈ signals, Recorded db s) :
    signals.length = (ordersFor db signals).countP PaperOrder.isFill +
      (ordersFor db signals).countP (fun o => o.status = .missed) + pendingIn signals := by
  induction signals with
  | nil => rfl
  | cons s signals ih =>
    have hhead := recorded_counts (h s List.mem_cons_self)
    have hrest := ih fun s' hs' => h s' (List.mem_cons_of_mem _ hs')
    have hsplit : ordersFor db (s :: signals) = ordersOf db s.id ++ ordersFor db signals :=
      List.flatMap_cons
    have hpending : pendingIn (s :: signals) = pendingIn signals + if s.status =
        .pending then 1 else 0 := by
      unfold pendingIn
      rw [List.countP_cons]
      simp
    rw [hsplit, List.countP_append, List.countP_append, hhead.1, hhead.2, hpending, List.length_cons]
    cases hst : s.status <;> simp <;> omega

/-- The orders of a wallet are the orders of its signals. -/
theorem orders_of_wallet (ht : Tables db) (hl : LifecycleOk db)
    (he : EvidenceBooks db) (walletId : Nat) :
    (db.paperOrders.filter fun o => o.walletId = walletId).Perm
      (ordersFor db (db.signals.filter fun s => s.walletId = walletId)) := by
  have hnodup : db.paperOrders.Nodup := List.Nodup.of_map _ hl.keys
  have hsignals : ((db.signals.filter fun s => s.walletId = walletId).map Signal.id).Nodup :=
    ht.signalIds.sublist (List.filter_sublist.map Signal.id)
  have hjoined : (ordersFor db (db.signals.filter fun s => s.walletId = walletId)).Nodup := by
    refine List.nodup_flatMap.mpr ⟨fun s _ => hnodup.filter _, ?_⟩
    refine (List.pairwise_map.mp hsignals).imp fun {s s'} hne => ?_
    intro o ho ho'
    have hid : o.signalId = s.id := of_decide_eq_true (List.mem_filter.mp ho).2
    have hid' : o.signalId = s'.id := of_decide_eq_true (List.mem_filter.mp ho').2
    exact hne (hid.symm.trans hid')
  refine (List.perm_ext_iff_of_nodup (hnodup.filter _) hjoined).mpr fun o => ?_
  unfold ordersFor
  simp only [List.mem_filter, List.mem_flatMap, decide_eq_true_eq]
  constructor
  · rintro ⟨ho, hwallet⟩
    obtain ⟨s, hs, howner⟩ := List.mem_map.mp (he.owned o ho)
    obtain ⟨hid, hof⟩ := Prod.mk.inj howner
    exact ⟨s, ⟨hs, hof.trans hwallet⟩, ho, hid.symm⟩
  · rintro ⟨s, ⟨hs, hwallet⟩, ho, hid⟩
    obtain ⟨s', hs', howner⟩ := List.mem_map.mp (he.owned o ho)
    obtain ⟨hid', hof⟩ := Prod.mk.inj howner
    obtain rfl := Keyed.eq_of_key Signal.id ht.signalIds hs hs' (hid.symm.trans hid'.symm)
    exact ⟨ho, hof.symm.trans hwallet⟩

/-! ## The current period -/

theorem currentSignals_sublist (db : Db) (wallet : Wallet) :
    (currentSignals db wallet).Sublist (db.signals.filter fun s => s.walletId = wallet.id) := by
  unfold currentSignals
  cases wallet.approvedAt with
  | none => exact List.nil_sublist _
  | some boundary =>
    apply List.monotone_filter_right
    intro s hs
    simp only [Bool.and_eq_true] at hs
    exact hs.1.1

theorem eligibleTrades_sublist (db : Db) (wallet : Wallet) :
    (eligibleTrades db wallet).Sublist (db.trades.filter fun t => t.walletId = wallet.id) := by
  unfold eligibleTrades
  cases wallet.approvedAt with
  | none => exact List.nil_sublist _
  | some boundary =>
    apply List.monotone_filter_right
    intro t ht
    simp only [Bool.and_eq_true] at ht
    exact ht.1.1

/-- Counting the orders of the period is counting some of the wallet's. -/
theorem ordersFor_current_le (ht : Tables db) (hl : LifecycleOk db)
    (he : EvidenceBooks db) (wallet : Wallet)
    (p : PaperOrder → Bool) : (ordersFor db (currentSignals db wallet)).countP p ≤
      (db.paperOrders.filter fun o => o.walletId = wallet.id).countP p := by
  rw [(orders_of_wallet ht hl he wallet.id).countP_eq p]
  exact ((currentSignals_sublist db wallet).flatMap _).countP_le

theorem current_counts (db : Db) (wallet : Wallet) :
    (walletPaperEvidence db wallet).copiedTrades =
      (ordersFor db (currentSignals db wallet)).countP PaperOrder.isFill ∧
    (walletPaperEvidence db wallet).misses =
      (ordersFor db (currentSignals db wallet)).countP (fun o => o.status = .missed) ∧
    (walletPaperEvidence db wallet).partialFills =
      (ordersFor db (currentSignals db wallet)).countP fun o => o.status = .partialFill :=
  ⟨copiedOf_orders _, missesOf_orders _, partialOf_orders _⟩

theorem lifetime_counts (db : Db) (wallet : Wallet) :
    (walletPaperEvidence db wallet).lifetimeCopiedTrades =
      (db.paperOrders.filter fun o => o.walletId = wallet.id).countP PaperOrder.isFill ∧
    (walletPaperEvidence db wallet).lifetimeMisses =
      (db.paperOrders.filter fun o => o.walletId = wallet.id).countP (fun o => o.status = .missed) ∧
    (walletPaperEvidence db wallet).lifetimePartialFills =
      (db.paperOrders.filter fun o => o.walletId = wallet.id).countP fun o =>
      o.status = .partialFill :=
  ⟨copiedOf_orders _, missesOf_orders _, partialOf_orders _⟩

/-- Detection copied wallet and times from the trade, so a signal of the period is for an eligible
trade, and no two are for the same. -/
theorem current_le_eligible {s : Sys} (hs : Sourced s) (ht : Tables s.db) (wallet : Wallet) :
    (currentSignals s.db wallet).length ≤ (eligibleTrades s.db wallet).length := by
  have hsub := (currentSignals_sublist s.db wallet).trans List.filter_sublist
  have horigins : ((currentSignals s.db wallet).map Signal.origin).Nodup := by
    apply List.Nodup.of_map Prod.fst
    rw [List.map_map]
    exact ht.sources.sublist (hsub.map Signal.sourceTradeId)
  have hincluded : (currentSignals s.db wallet).map Signal.origin ⊆
      (eligibleTrades s.db wallet).map Trade.origin := by
    intro x hx
    obtain ⟨sig, hsig, rfl⟩ := List.mem_map.mp hx
    obtain ⟨t, htrade, horigin⟩ :=
      List.mem_map.mp (hs.trade _ (List.mem_map_of_mem (hsub.subset hsig)))
    obtain ⟨-, hrest⟩ := Prod.mk.inj horigin
    obtain ⟨hwallet, hrest⟩ := Prod.mk.inj hrest
    obtain ⟨htraded, hingested⟩ := Prod.mk.inj hrest
    refine List.mem_map.mpr ⟨t, ?_, horigin⟩
    unfold currentSignals at hsig
    unfold eligibleTrades
    cases hb : wallet.approvedAt with
    | none =>
      rw [hb] at hsig
      cases hsig
    | some boundary =>
      rw [hb] at hsig
      have hkeep := (List.mem_filter.mp hsig).2
      simp only [Bool.and_eq_true, decide_eq_true_eq] at hkeep
      obtain ⟨⟨hof, h0⟩, h1⟩ := hkeep
      refine List.mem_filter.mpr ⟨htrade, ?_⟩
      simp only [Bool.and_eq_true, decide_eq_true_eq]
      rw [hwallet, htraded, hingested]
      exact ⟨⟨hof, h0⟩, h1⟩
  have hle := (List.Nodup.subperm horigins hincluded).length_le
  rwa [List.length_map, List.length_map] at hle

/-! ## The theorem -/

/-- The counts and sums of a report hang together. -/
structure EvidenceOk (db : Db) (wallet : Wallet) (e : PaperEvidence) : Prop where
  copied_le : e.copiedTrades ≤ e.signalsGenerated
  signals_le : e.signalsGenerated ≤ e.eligibleSourceTrades
  rate_le : ∀ rate, e.copyRate = some rate → rate ≤ 1
  signals_eq : e.signalsGenerated = e.copiedTrades + e.misses + pendingIn (currentSignals db wallet)
  lifetime_eq : e.lifetimeSignalsGenerated = e.lifetimeCopiedTrades + e.lifetimeMisses +
    pendingIn (db.signals.filter fun s => s.walletId = wallet.id)
  partial_le : e.partialFills ≤ e.copiedTrades ∧ e.lifetimePartialFills ≤ e.lifetimeCopiedTrades
  stale_le : e.staleSignals ≤ e.misses
  reasons : e.misses = (e.missReasons.map Prod.snd).sum ∧
    e.lifetimeMisses = (e.lifetimeMissReasons.map Prod.snd).sum
  sources_within : e.eligibleSourceTrades ≤ e.sourceTradesObserved
  signals_within : e.signalsGenerated ≤ e.lifetimeSignalsGenerated
  copied_within : e.copiedTrades ≤ e.lifetimeCopiedTrades
  partial_within : e.partialFills ≤ e.lifetimePartialFills
  misses_within : e.misses ≤ e.lifetimeMisses
  reasons_within : ∀ reason, reasonCount reason e.missReasons ≤
    reasonCount reason e.lifetimeMissReasons
  pnl_split : e.copiedRealizedPnlUsd = e.sellRealizedPnlUsd + e.settlementRealizedPnlUsd
  complete : e.pnlBreakdownIncomplete = false

theorem sum_of_wallet {α : Type} (p : α → Bool) (f : α → ℚ) (l : List α) :
    ((l.filter p).map f).sum = (l.map fun a => if p a then f a else 0).sum := by
  induction l with
  | nil => rfl
  | cons a l ih =>
    cases h : p a with
    | true => simp [h, ih]
    | false => simp [h, ih]

theorem EvidenceBooks.pnl_split (h : EvidenceBooks db) (walletId : Nat) :
    ((db.positions.filter fun p => p.walletId = walletId).map Position.realizedPnl).sum =
      ((db.paperOrders.filter fun o => o.walletId = walletId).map fun o =>
        o.realizedPnlDelta.getD 0).sum +
      ((db.positions.filter fun p => p.walletId = walletId).map fun p =>
        p.settlementRealizedPnl.getD 0).sum := by
  have hpnl := h.pnl walletId
  have hsub : (db.positions.map (Position.unexplained walletId)).sum =
      ((db.positions.filter fun p => p.walletId = walletId).map Position.realizedPnl).sum -
      ((db.positions.filter fun p => p.walletId = walletId).map fun p =>
        p.settlementRealizedPnl.getD 0).sum := by
    induction db.positions with
    | nil => simp
    | cons p l ih =>
      rw [List.map_cons, List.sum_cons, ih]
      unfold Position.unexplained
      by_cases hw : p.walletId = walletId
      · simp only [List.filter_cons, hw, decide_true, if_true, List.map_cons, List.sum_cons]
        ring
      · simp only [List.filter_cons, hw, decide_false, if_false, Bool.false_eq_true, zero_add]
  have horders : (db.paperOrders.map (PaperOrder.delta walletId)).sum =
      ((db.paperOrders.filter fun o => o.walletId = walletId).map fun o =>
        o.realizedPnlDelta.getD 0).sum := by
    rw [sum_of_wallet]
    unfold PaperOrder.delta
    simp
  linarith

theorem EvidenceBooks.complete (h : EvidenceBooks db) (wallet : Wallet) :
    (walletPaperEvidence db wallet).pnlBreakdownIncomplete = false := by
  unfold walletPaperEvidence
  dsimp only
  rw [Bool.or_eq_false_iff, List.any_eq_false, List.any_eq_false]
  constructor
  · intro p hp hbad
    rw [Bool.and_eq_true] at hbad
    have hsome := h.settled p (List.mem_of_mem_filter hp) hbad.1
    rw [← Option.not_isSome, hsome] at hbad
    cases hbad.2
  · intro o ho hbad
    rw [Bool.and_eq_true, Bool.and_eq_true] at hbad
    have hsome := h.sold o (List.mem_of_mem_filter ho) hbad.1.2 (of_decide_eq_true hbad.1.1)
    rw [← Option.not_isSome, hsome] at hbad
    cases hbad.2

theorem rate_le_one {copied eligible : Nat} (h : copied ≤ eligible) {rate : ℚ}
    (hrate : (if eligible = 0 then none else some (roundEven 4 (copied / eligible))) = some rate) :
    rate ≤ 1 := by
  split at hrate
  · cases hrate
  · next hpos =>
    obtain rfl := Option.some.inj hrate
    have hle : (copied : ℚ) / eligible ≤ ((1 : Int) : ℚ) := by
      push_cast
      exact div_le_one_of_le₀ (by exact_mod_cast h) (by positivity)
    exact_mod_cast roundEven_le 4 hle

/-- In every state of every run the report about a wallet is consistent, whatever transitions the
wallet went through. -/
theorem paper_evidence_consistent (pw : Py.DecPow) (tx : Py.Text) (cfg : Settings) (t0 : Time)
    (tr : List (Event × Sys)) (s : Sys) (h : SysRun pw tx cfg t0 tr s) (wallet : Wallet) :
    EvidenceOk s.db wallet (walletPaperEvidence s.db wallet) := by
  have ht := h.ok.tables
  have hl := h.lifecycle
  have he := h.evidenceBooks
  have hperm := orders_of_wallet ht hl he wallet.id
  have hcurrent := currentSignals_sublist s.db wallet
  have hrecorded : ∀ sig ∈ s.db.signals.filter (fun sig => sig.walletId = wallet.id),
      Recorded s.db sig :=
    fun sig hsig => hl.recorded sig (List.mem_of_mem_filter hsig)
  have hcounts := ordersFor_counts fun sig hsig => hrecorded sig (hcurrent.subset hsig)
  have hlifetime := ordersFor_counts hrecorded
  have hwithin := ordersFor_current_le ht hl he wallet
  have hle := current_le_eligible h.sourced ht wallet
  obtain ⟨hcopied, hmisses, hpartialOrder⟩ := current_counts s.db wallet
  obtain ⟨hcopied', hmisses', hpartialOrder'⟩ := lifetime_counts s.db wallet
  have hcopied_le : (walletPaperEvidence s.db wallet).copiedTrades ≤
      (currentSignals s.db wallet).length := by
    rw [hcopied]
    omega
  constructor
  case copied_le => exact hcopied_le
  case signals_le => exact hle
  case rate_le => exact fun rate hrate => rate_le_one (hcopied_le.trans hle) hrate
  case signals_eq =>
    rw [hcopied, hmisses]
    exact hcounts
  case lifetime_eq =>
    rw [hcopied', hmisses', hperm.countP_eq, hperm.countP_eq]
    exact hlifetime
  case partial_le =>
    rw [hcopied, hcopied', hpartialOrder, hpartialOrder']
    exact ⟨List.countP_mono_left fun o _ => isFill_of_partial o,
      List.countP_mono_left fun o _ => isFill_of_partial o⟩
  case stale_le =>
    rw [hmisses]
    refine (reasonCount_orders "stale_signal" _).trans_le (List.countP_mono_left fun o _ ho => ?_)
    rw [Bool.and_eq_true] at ho
    exact ho.1
  case reasons => exact ⟨(reasons_total _).symm, (reasons_total _).symm⟩
  case sources_within => exact (eligibleTrades_sublist s.db wallet).length_le
  case signals_within => exact hcurrent.length_le
  case copied_within =>
    rw [hcopied, hcopied']
    exact hwithin _
  case partial_within =>
    rw [hpartialOrder, hpartialOrder']
    exact hwithin _
  case misses_within =>
    rw [hmisses, hmisses']
    exact hwithin _
  case reasons_within =>
    intro reason
    show reasonCount reason (reasonsOf (orderRows _)) ≤ reasonCount reason (reasonsOf (orderRows _))
    rw [reasonCount_orders, reasonCount_orders]
    exact hwithin _
  case pnl_split => exact he.pnl_split wallet.id
  case complete => exact he.complete wallet

/-- The report about the wallet that was disabled and re-enabled. -/
def reenabledReport : Option PaperEvidence :=
  ((outcome liveSettings reenabled).db.wallet 1).map
    (walletPaperEvidence (outcome liveSettings reenabled).db)

theorem paper_evidence_consistent_reenabled :
    (reenabledReport.map fun e => (e.signalsGenerated, e.copiedTrades,
      e.lifetimeSignalsGenerated, e.lifetimeMisses)) =
      some (1, 1, 2, 1) ∧
    ∀ wallet ∈ (outcome liveSettings reenabled).db.wallets,
      EvidenceOk (outcome liveSettings reenabled).db wallet
        (walletPaperEvidence (outcome liveSettings reenabled).db wallet) :=
  ⟨by decide +kernel, fun wallet _ => paper_evidence_consistent _ _ _ _ _ _
    (history_run (by decide +kernel)) wallet⟩

end Polycopy
