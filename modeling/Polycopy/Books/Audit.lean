import Polycopy.Books.Lifecycle

/-!
# The audit of a decision

The commit that ends a signal writes its order and one entry of the decision log, and
nobody writes either again:

* `AuditOk`: a signal that is executed has one order without a miss reason and one
  `paper_order_executed` entry, one that is skipped a missed order and one
  `signal_skipped` entry, a pending one neither;
* `Grows`: orders, log, trades and signals are appended to only, and a wallet keeps its
  address, a market its condition.
-/

namespace Polycopy

/-! ## What the log holds about a signal -/

/-- Action, signal and trade of an entry about a signal. -/
def Decision.audit : Decision → Option (String × Nat × String)
  | .signalSkipped signalId sourceTradeId _ => some ("signal_skipped", signalId, sourceTradeId)
  | .paperOrderExecuted signalId sourceTradeId _ _ _ _ _ _ _ =>
    some ("paper_order_executed", signalId, sourceTradeId)
  | _ => none

def DecisionLogEntry.audits (id : Nat) (e : DecisionLogEntry) : Bool :=
  e.decision.audit.any fun a => a.2.1 = id

def auditsOf (db : Db) (id : Nat) : List DecisionLogEntry :=
  db.decisionLog.filter fun e => e.audits id

/-- The action that goes with an order. -/
def PaperOrder.action (o : PaperOrder) : String :=
  if o.missReason.isSome then "signal_skipped" else "paper_order_executed"

/-- Neither order nor entry, or one of each that agree. -/
def Audited (db : Db) (s : Signal) : Prop :=
  (s.status = .pending ∧ ordersOf db s.id = [] ∧ auditsOf db s.id = []) ∨
    s.status ≠ .pending ∧ ∃ o e, ordersOf db s.id = [o] ∧ auditsOf db s.id = [e] ∧
      e.decision.audit = some (o.action, s.id, s.sourceTradeId)

structure AuditOk (db : Db) : Prop where
  audited : ∀ s ∈ db.signals, Audited db s
  owner : ∀ o ∈ db.paperOrders, ∃ s ∈ db.signals, s.id = o.signalId
  auditor : ∀ id, auditsOf db id ≠ [] → ∃ s ∈ db.signals, s.id = id

theorem auditOk_empty : AuditOk Db.empty :=
  ⟨fun _ h => (List.not_mem_nil h).elim, fun _ h => (List.not_mem_nil h).elim,
    fun _ h => absurd rfl h⟩

theorem auditsOf_log (db : Db) (actor : String) (d : Decision) (id : Nat) :
    auditsOf (db.log actor d) id = auditsOf db id ++
      [(⟨actor, d⟩ : DecisionLogEntry)].filter fun e => e.audits id :=
  List.filter_append _ _

theorem audits_isBook {e : DecisionLogEntry} {id : Nat} (h : e.audits id = true) :
    e.decision.isBook = true := by
  unfold DecisionLogEntry.audits Decision.audit at h
  split at h
  · next he => rw [he]; rfl
  · next he => rw [he]; rfl
  · cases h

theorem auditsOf_bookLog (db : Db) (id : Nat) :
    auditsOf db id = (bookLog db).filter fun e => e.audits id := by
  unfold auditsOf bookLog
  rw [List.filter_filter]
  apply List.filter_congr
  intro e _
  cases h : e.audits id with
  | false => rfl
  | true => rw [audits_isBook h]; rfl

/-! ## Writes about no signal -/

theorem AuditOk.quiet {db db' : Db} (h : AuditOk db) (q : Quiet db db')
    (haudits : ∀ id, auditsOf db' id = auditsOf db id) : AuditOk db' := by
  refine ⟨fun s' hs' => ?_, fun o ho => ?_, fun id hne => ?_⟩
  · obtain ⟨s, hs, hid, hsource, hstatus⟩ := mem_stage q.stages.symm hs'
    have haudited := h.audited s hs
    unfold Audited at haudited ⊢
    rwa [← hid, ← hsource, ← hstatus, q.ordersOf, haudits]
  · rw [q.paperOrders] at ho
    obtain ⟨s, hs, hid⟩ := h.owner o ho
    obtain ⟨s', hs', hid', -⟩ := mem_stage q.stages hs
    exact ⟨s', hs', hid'.trans hid⟩
  · rw [haudits] at hne
    obtain ⟨s, hs, hid⟩ := h.auditor id hne
    obtain ⟨s', hs', hid', -⟩ := mem_stage q.stages hs
    exact ⟨s', hs', hid'.trans hid⟩

/-! ## The commit that ends a signal -/

/-- What `Ends` says, with the entry of the log. -/
structure Closes (db : Db) (s : Signal) (o : PaperOrder) (status : SignalStatus)
    (entries : List DecisionLogEntry) (e : DecisionLogEntry) (db' : Db) :
    Prop where
  ends : Ends db s o status entries db'
  audits : ∀ id, auditsOf db' id = auditsOf db id ++ if id = s.id then [e] else []
  audit : e.decision.audit = some (o.action, s.id, s.sourceTradeId)

theorem audits_singleton {e : DecisionLogEntry} {action source : String} {signalId : Nat}
    (h : e.decision.audit = some (action, signalId, source)) (id : Nat) :
    ([e].filter fun e => e.audits id) = if id = signalId then [e] else [] := by
  have haudits : e.audits id = decide (signalId = id) := by
    unfold DecisionLogEntry.audits
    rw [h]
    rfl
  by_cases he : id = signalId
  · subst he
    simp [haudits]
  · have hne : signalId ≠ id := fun hid => he hid.symm
    simp [haudits, he, hne]

theorem recordSkip_closes (cfg : Settings) (db : Db) (s : Signal) (reason : MissReason) (now : Time)
    (book : Option BookEvidence) :
    Closes db s (missedOrder cfg s reason now book) .skipped [skipEntry s reason]
      (skipEntry s reason) (recordSkip cfg db s reason now book) where
  ends := recordSkip_ends cfg db s reason now book
  audits id :=
    (auditsOf_log _ _ _ _).trans (congrArg (auditsOf db id ++ ·) (audits_singleton rfl id))
  audit := rfl

theorem commitFill_closes (cfg : Settings) (db : Db) (s : Signal) (now retrievedAt : Time)
    (fill : Fill) (snapshot : BookSnapshot) (fee : ℚ) (marketFee : MarketFee) :
    Closes db s (filledOrder cfg s now retrievedAt fill snapshot fee marketFee
      ((positionFor db s).fillDelta s.side fill fee)) .executed []
      ⟨"bot", .paperOrderExecuted s.id s.sourceTradeId fill.status fill.fillPrice s.sourcePrice
        fill.filledSize fill.depthAvailable
        fill.levelsConsumed fee⟩
      (commitFill cfg db s now retrievedAt fill snapshot fee marketFee) where
  ends := commitFill_ends cfg db s now retrievedAt fill snapshot fee marketFee
  audits id := by
    rw [commitFill_eq]
    exact (auditsOf_log _ _ _ _).trans (congrArg (auditsOf db id ++ ·) (audits_singleton rfl id))
  audit := rfl

theorem AuditOk.pending {db : Db} {s : Signal} (h : AuditOk db) (held : Held db s) :
    ordersOf db s.id = [] ∧ auditsOf db s.id = [] := by
  rcases h.audited s held.mem with ⟨-, hnone⟩ | ⟨hdone, -⟩
  · exact hnone
  · exact absurd held.pending hdone

theorem AuditOk.closes {db db' : Db} {s : Signal} {o : PaperOrder} {status : SignalStatus}
    {entries : List DecisionLogEntry} {e : DecisionLogEntry} (h : AuditOk db) (ht : Tables db)
    (held : Held db s) (hc : Closes db s o status entries e db') : AuditOk db' := by
  obtain ⟨horders, haudits⟩ := h.pending held
  have hstored : ∀ s' ∈ db.signals, ∃ s'' ∈ db'.signals, s''.id = s'.id := by
    intro s' hs'
    rw [hc.ends.signals]
    by_cases hid : s'.id = s.id
    · exact ⟨_, mem_setStatus.mpr (Or.inl ⟨s', hs', hid, rfl⟩), rfl⟩
    · exact ⟨s', mem_setStatus.mpr (Or.inr ⟨hs', hid⟩), rfl⟩
  refine ⟨fun s' hs' => ?_, fun o' ho' => ?_, fun id hne => ?_⟩
  · rw [hc.ends.signals] at hs'
    unfold Audited
    rcases mem_setStatus.mp hs' with ⟨s'', hs'', hid, rfl⟩ | ⟨hs', hid⟩
    · obtain rfl := Keyed.eq_of_key Signal.id ht.signalIds hs'' held.mem hid
      refine .inr ⟨hc.ends.done, o, e, ?_, ?_, hc.audit⟩
      · rw [hc.ends.ordersOf, horders, if_pos rfl, List.nil_append]
      · rw [hc.audits, haudits, if_pos rfl, List.nil_append]
    · rw [hc.ends.ordersOf, hc.audits, if_neg hid, if_neg hid, List.append_nil, List.append_nil]
      exact h.audited s' hs'
  · rw [hc.ends.orders] at ho'
    obtain ⟨s', hs', hid⟩ : ∃ s' ∈ db.signals, s'.id = o'.signalId := by
      rcases List.mem_append.mp ho' with ho' | ho'
      · exact h.owner o' ho'
      · obtain rfl := List.mem_singleton.mp ho'
        exact ⟨s, held.mem, hc.ends.signalId.symm⟩
    obtain ⟨s'', hs'', hid'⟩ := hstored s' hs'
    exact ⟨s'', hs'', hid'.trans hid⟩
  · rw [hc.audits] at hne
    obtain ⟨s', hs', hid⟩ : ∃ s' ∈ db.signals, s'.id = id := by
      by_cases hid : id = s.id
      · exact ⟨s, held.mem, hid.symm⟩
      · rw [if_neg hid, List.append_nil] at hne
        exact h.auditor id hne
    obtain ⟨s'', hs'', hid'⟩ := hstored s' hs'
    exact ⟨s'', hs'', hid'.trans hid⟩

theorem AuditOk.effect {cfg : Settings} {db db' : Db} (ht : Tables db) (h : AuditOk db)
    (he : Effect cfg db db') : AuditOk db' := by
  cases he with
  | same hs =>
    refine h.quiet hs.quiet fun id => ?_
    rw [auditsOf_bookLog, auditsOf_bookLog, hs.log]
  | deferred id => exact h.quiet (bumpDeferrals_quiet db id) fun _ => rfl
  | settled p st now mem isOpen settlement =>
    refine h.quiet (settlePosition_quiet cfg now db p st) fun id => ?_
    rw [settlePosition_eq]
    exact (auditsOf_log _ _ _ _).trans (List.append_nil _)
  | swept limit amount =>
    exact h.quiet (postWithdrawal_quiet cfg db limit amount) fun _ =>
      (auditsOf_log _ _ _ _).trans (List.append_nil _)
  | detected t new =>
    have hfresh := Keyed.fresh_not_mem Signal.id db.signals
    refine ⟨fun s hs => ?_, fun o ho => ?_, fun id hne => ?_⟩
    · rcases List.mem_append.mp hs with hs | hs
      · exact h.audited s hs
      · obtain rfl := List.mem_singleton.mp hs
        refine .inl ⟨rfl, List.filter_eq_nil_iff.mpr fun o ho hid => ?_, ?_⟩
        · obtain ⟨s', hs', hid'⟩ := h.owner o ho
          have hk : s'.id = Keyed.fresh Signal.id db.signals := hid'.trans (of_decide_eq_true hid)
          exact hfresh (hk ▸ List.mem_map_of_mem hs')
        · by_contra hne
          obtain ⟨s', hs', hid'⟩ := h.auditor _ hne
          have hk : s'.id = Keyed.fresh Signal.id db.signals := hid'
          exact hfresh (hk ▸ List.mem_map_of_mem hs')
    · obtain ⟨s, hs, hid⟩ := h.owner o ho
      exact ⟨s, List.mem_append_left _ hs, hid⟩
    · obtain ⟨s, hs, hid⟩ := h.auditor id hne
      exact ⟨s, List.mem_append_left _ hs, hid⟩
  | missed s reason now book held =>
    exact h.closes ht held (recordSkip_closes cfg db s reason now book)
  | filled s plan now retrievedAt fill snapshot fee marketFee guard =>
    exact h.closes ht guard.held
      (commitFill_closes cfg db s now retrievedAt fill snapshot fee marketFee)

theorem SysRun.audits {pw : Py.DecPow} {tx : Py.Text} {cfg : Settings} {t0 : Time}
    {tr : List (Event × Sys)} {s : Sys} (h : SysRun pw tx cfg t0 tr s) : AuditOk s.db :=
  (h.books_inv (fun _ => True) (fun _ db => AuditOk db) auditOk_empty
    (fun _ _ _ ht hi he => hi.effect ht he)
    (fun _ _ _ _ _ hi => hi) trivial fun _ _ => trivial).2

/-! ## Appending only -/

def Signal.source (s : Signal) : Nat × String := (s.id, s.sourceTradeId)

structure Grows (db db' : Db) : Prop where
  orders : db.paperOrders <+: db'.paperOrders
  log : db.decisionLog <+: db'.decisionLog
  trades : db.trades <+: db'.trades
  signals : db.signals.map Signal.source <+: db'.signals.map Signal.source
  wallets : ∀ id w, db.wallet id = some w → ∃ w', db'.wallet id = some w' ∧ w'.address = w.address
  markets : ∀ id m, db.market id = some m → ∃ m', db'.market id = some m' ∧
    m'.conditionId = m.conditionId

theorem Grows.refl (db : Db) : Grows db db :=
  ⟨List.prefix_rfl, List.prefix_rfl, List.prefix_rfl, List.prefix_rfl,
    fun _ w hw => ⟨w, hw, rfl⟩, fun _ m hm => ⟨m, hm, rfl⟩⟩

theorem Grows.trans {db db' db'' : Db} (h : Grows db db')
    (h' : Grows db' db'') : Grows db db'' where
  orders := h.orders.trans h'.orders
  log := h.log.trans h'.log
  trades := h.trades.trans h'.trades
  signals := h.signals.trans h'.signals
  wallets id w hw := by
    obtain ⟨w', hw', haddress⟩ := h.wallets id w hw
    obtain ⟨w'', hw'', haddress'⟩ := h'.wallets id w' hw'
    exact ⟨w'', hw'', haddress'.trans haddress⟩
  markets id m hm := by
    obtain ⟨m', hm', hcondition⟩ := h.markets id m hm
    obtain ⟨m'', hm'', hcondition'⟩ := h'.markets id m' hm'
    exact ⟨m'', hm'', hcondition'.trans hcondition⟩

/-- What a commit of the bot does to the tables it owns. -/
structure Appends (db db' : Db) : Prop where
  orders : db.paperOrders <+: db'.paperOrders
  log : db.decisionLog <+: db'.decisionLog
  signals : db.signals.map Signal.source <+: db'.signals.map Signal.source

theorem Appends.refl (db : Db) : Appends db db :=
  ⟨List.prefix_rfl, List.prefix_rfl, List.prefix_rfl⟩

theorem Appends.trans {db db' db'' : Db} (h : Appends db db')
    (h' : Appends db' db'') : Appends db db'' :=
  ⟨h.orders.trans h'.orders, h.log.trans h'.log, h.signals.trans h'.signals⟩

theorem Appends.grows {db db' : Db} (h : Appends db db') (hf : BotFrame db db') : Grows db db' where
  orders := h.orders
  log := h.log
  trades := by rw [hf.trades]
  signals := h.signals
  wallets id w hw := by
    refine ⟨w, ?_, rfl⟩
    unfold Db.wallet
    rw [hf.wallets]
    exact hw
  markets id m hm := by
    refine ⟨m, ?_, rfl⟩
    unfold Db.market
    rw [hf.markets]
    exact hm

theorem detectSignals_appends (rows : List Trade) : ∀ db, Appends db (detectSignals db rows) := by
  induction rows with
  | nil => exact Appends.refl
  | cons t rest ih =>
    intro db
    have hone : Appends db (addSignal db t) := by
      refine ⟨List.prefix_rfl, List.prefix_rfl, ?_⟩
      show db.signals.map Signal.source <+: (db.signals ++ _).map Signal.source
      rw [List.map_append]
      exact List.prefix_append _ _
    exact hone.trans (ih (addSignal db t))

theorem settlePaperPositions_appends (cfg : Settings) (now : Time)
    (rows : List (Position × Settlement)) :
    ∀ db, Appends db (settlePaperPositions cfg now db rows) := by
  induction rows with
  | nil => exact Appends.refl
  | cons row rest ih =>
    intro db
    refine Appends.trans ?_ (ih (settlePosition cfg now db row))
    rw [settlePosition_eq]
    exact ⟨List.prefix_rfl, List.prefix_append _ _, List.prefix_rfl⟩

theorem setStatus_source (status : SignalStatus) (id : Nat) (signals : List Signal) :
    (setStatus status id signals).map Signal.source = signals.map Signal.source :=
  setStatus_map Signal.source status id (fun _ => rfl) signals

theorem recordSkip_appends (cfg : Settings) (db : Db) (s : Signal) (reason : MissReason)
    (now : Time) (book : Option BookEvidence) :
    Appends db (recordSkip cfg db s reason now book) :=
  ⟨List.prefix_append _ _, List.prefix_append _ _, by
    show _ <+: (setStatus .skipped s.id db.signals).map Signal.source
    rw [setStatus_source]⟩

theorem commitFill_appends (cfg : Settings) (db : Db) (s : Signal) (now retrievedAt : Time)
    (fill : Fill) (snapshot : BookSnapshot) (fee : ℚ) (marketFee : MarketFee) :
    Appends db (commitFill cfg db s now retrievedAt fill snapshot fee marketFee) := by
  rw [commitFill_eq]
  refine ⟨List.prefix_append _ _, List.prefix_append _ _, ?_⟩
  show _ <+: (setStatus .executed s.id db.signals).map Signal.source
  rw [setStatus_source]

theorem view_appends (ss : Session) (db : Db) : Appends db (ss.view db) :=
  ⟨List.prefix_rfl, List.prefix_rfl, by rw [view_signals Signal.source (fun _ _ => rfl)]⟩

theorem gates_appends {cfg : Settings} {v db : Db}
    (h : db = v ∨ db = withAccount cfg v) : Appends v db := by
  rcases h with rfl | rfl <;> exact ⟨List.prefix_rfl, List.prefix_rfl, List.prefix_rfl⟩

theorem Bot.appends {pw : Py.DecPow} {s t : Sys} {e : Event}
    (h : Bot pw s e t) : Appends s.db t.db := by
  have hview : Appends s.db s.view := view_appends s.session s.db
  cases h with
  | detect rows => exact detectSignals_appends rows s.db
  | settle startedAt rows => exact settlePaperPositions_appends s.cfg startedAt rows s.db
  | skip id rest deferred sig reason db pc ready gates =>
    exact (hview.trans (gates_appends (executeGates_skip gates))).trans
      (recordSkip_appends _ _ _ _ _ _)
  | bookSkip | feeSkip => exact hview.trans (recordSkip_appends _ _ _ _ _ _)
  | feeFill => exact hview.trans (commitFill_appends _ _ _ _ _ _ _ _ _)
  | finishDeferred => exact hview
  | sweep pc =>
    show Appends s.db (if _ then _ else _)
    split
    · next hpos =>
      rcases sweepProfitIfDue_cases s.cfg s.view with h0 | ⟨limit, hp, hl, hpile, hfree, -, heq⟩
      · rw [h0] at hpos
        exact absurd hpos (lt_irrefl 0)
      · rw [heq]
        exact hview.trans ⟨List.prefix_rfl, List.prefix_append _ _, List.prefix_rfl⟩
    · exact .refl _
  | select | passOver | stop | defer | request | bookFill | raisedGates | raisedBook | raisedFee
  | finish => exact .refl _

/-- A wallet that is updated keeps its address. -/
theorem update_wallet {wallets : List Wallet} {walletId : Nat} {target : ApprovalState}
    {now : Time} {id : Nat} {w : Wallet} (h : Keyed.find Wallet.id id wallets = some w) :
    ∃ w', Keyed.find Wallet.id id (Keyed.update Wallet.id walletId
      (Wallet.moveTo target now) wallets) = some w' ∧ w'.address = w.address := by
  have hkey : ∀ w : Wallet, (w.moveTo target now).id = w.id := fun _ => rfl
  refine ⟨if w.id = walletId then w.moveTo target now else w, ?_, ?_⟩
  · rw [Keyed.find_update Wallet.id hkey, h]
    rfl
  · split <;> rfl

theorem update_market {db : Db} {marketId : Nat} {f : Market → Market} (hf : KeepsMarket f)
    {id : Nat} {m : Market} (h : db.market id = some m) :
    ∃ m', (updateMarket marketId f db).market id = some m' ∧ m'.conditionId = m.conditionId := by
  unfold Db.market updateMarket at *
  refine ⟨if m.id = marketId then f m else m, ?_, ?_⟩
  · rw [Keyed.find_update Market.id (fun m => (hf m).1), h]
    rfl
  · split
    · exact (hf m).2
    · rfl

theorem find_snoc {α : Type} {key : α → Nat} {l : List α} {id : Nat} {a : α}
    (h : Keyed.find key id l = some a) (b : α) :
    Keyed.find key id (l ++ [b]) = some a := by
  rw [Keyed.find_append, h]
  rfl

theorem Elsewhere.grows {tx : Py.Text} {cfg : Settings} {now : Time} {db db' : Db} {e : Event}
    (h : Elsewhere tx cfg now db e db') :
    Grows db db' := by
  have hsame : ∀ id w, db.wallet id = some w → ∃ w', db.wallet id = some w' ∧
    w'.address = w.address := (Grows.refl db).wallets
  have hsame' := (Grows.refl db).markets
  cases h with
  | ingestTrade t =>
    exact ⟨List.prefix_rfl, List.prefix_rfl, List.prefix_append _ _, List.prefix_rfl, hsame, hsame'⟩
  | ingestMarket m =>
    exact ⟨List.prefix_rfl, List.prefix_rfl, List.prefix_rfl, List.prefix_rfl, hsame,
      fun id m' hm => ⟨m', find_snoc hm m, rfl⟩⟩
  | resolve id outcome f keeps =>
    exact ⟨List.prefix_rfl, List.prefix_rfl, List.prefix_rfl, List.prefix_rfl, hsame,
      fun id m hm => update_market keeps hm⟩
  | backfill id f keeps =>
    exact ⟨List.prefix_rfl, List.prefix_rfl, List.prefix_rfl, List.prefix_rfl, hsame,
      fun id m hm => update_market keeps hm⟩
  | throttle | overview =>
    exact ⟨List.prefix_rfl, List.prefix_rfl, List.prefix_rfl, List.prefix_rfl, hsame, hsame'⟩
  | addWallet _ address label h =>
    rw [addWallet_ok h]
    exact ⟨List.prefix_rfl, List.prefix_append _ _, List.prefix_rfl, List.prefix_rfl,
      fun id w hw => ⟨w, find_snoc hw _, rfl⟩, hsame'⟩
  | transition _ walletId action h =>
    obtain ⟨w, queue, -, -, rfl⟩ := transitionWallet_ok h
    exact ⟨List.prefix_rfl, List.prefix_append _ _, List.prefix_rfl, List.prefix_rfl,
      fun id w hw => update_wallet hw, hsame'⟩
  | verdict _ verdict walletId h =>
    obtain rfl | ⟨w, target, queue, -, -, -, rfl⟩ := applyVerdict_ok h
    · exact .refl _
    · exact ⟨List.prefix_rfl, List.prefix_rfl, List.prefix_rfl, List.prefix_rfl,
        fun id w hw => update_wallet hw, hsame'⟩
  | settings p l =>
    unfold updateBankrollSettings
    rw [getOrCreate_withAccount]
    dsimp only
    split <;> exact ⟨List.prefix_rfl,
      by first | exact List.prefix_rfl | exact List.prefix_append _ _, List.prefix_rfl,
      List.prefix_rfl, hsame, hsame'⟩

theorem Step.grows {pw : Py.DecPow} {tx : Py.Text} {s t : Sys} {e : Event}
    (h : Step pw tx s e t) : Grows s.db t.db := by
  cases h with
  | tick | crash => exact .refl _
  | elsewhere _ db h => exact h.grows
  | bot _ _ h => exact h.appends.grows h.frame

theorem run_grows {pw : Py.DecPow} {tx : Py.Text} {s t : Sys} {tr : List (Event × Sys)}
    (h : Runs.Run (Step pw tx) s tr t) : Grows s.db t.db := by
  induction h with
  | nil => exact .refl _
  | snoc _ _ _ hs ih => exact ih.trans hs.grows

/-- The id of a trade is its own. -/
theorem Step.tradeIds {pw : Py.DecPow} {tx : Py.Text} {s t : Sys} {e : Event} (h : Step pw tx s e t)
    (hn : (s.db.trades.map Trade.id).Nodup) : (t.db.trades.map Trade.id).Nodup := by
  cases h with
  | tick | crash => exact hn
  | bot _ _ h =>
    rw [h.frame.trades]
    exact hn
  | elsewhere _ db h =>
    cases h with
    | ingestTrade t id =>
      refine Keyed.nodup_snoc Trade.id hn fun hmem => ?_
      obtain ⟨t', ht', hid⟩ := List.mem_map.mp hmem
      exact id t' ht' hid
    | ingestMarket | resolve | backfill | throttle | overview => exact hn
    | addWallet _ address label h =>
      rw [addWallet_ok h]
      exact hn
    | transition _ walletId action h =>
      obtain ⟨w, queue, -, -, rfl⟩ := transitionWallet_ok h
      exact hn
    | verdict _ verdict walletId h =>
      obtain rfl | ⟨w, target, queue, -, -, -, rfl⟩ := applyVerdict_ok h <;> exact hn
    | settings p l =>
      unfold updateBankrollSettings
      rw [getOrCreate_withAccount]
      dsimp only
      split <;> exact hn

/-- One order a signal. -/
theorem LifecycleOk.orderSignals {db : Db} (h : LifecycleOk db) (ht : Tables db) :
    (db.paperOrders.map PaperOrder.signalId).Nodup := by
  have hkeys := h.keys
  rw [List.Nodup, List.pairwise_map] at hkeys ⊢
  refine hkeys.imp_of_mem fun {o o'} ho ho' hne hsame => hne ?_
  obtain ⟨s, hs, hid, hkey⟩ := h.owner o ho
  obtain ⟨s', hs', hid', hkey'⟩ := h.owner o' ho'
  obtain rfl := Keyed.eq_of_key Signal.id ht.signalIds hs hs' ((hid.symm.trans hsame).trans hid')
  exact hkey.trans hkey'.symm

end Polycopy
