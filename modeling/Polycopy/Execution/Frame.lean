import Polycopy.Execution.Gates

/-!
# What one call inside the cycle changes

`attempt` is `execute_signal` as `run_execution_cycle` calls it: a deferral stays
uncommitted, a recorded outcome is committed with the deferrals that wait, an
exception is rolled back with them.  `execute_signal_atomic` gives the exact
frame of each of the four outcomes.
-/

namespace Polycopy

open Py

/-! ## One call -/

/-- The clock and the upstream of one call, and whether the database refuses one of its
statements or its commit. -/
structure Call where
  now : Time
  retrievedAt : Time
  book : String → Except Exc Json
  feeInfo : String → Except Exc Json
  dbRaises : Bool

inductive Outcome
  | deferred | missed | filled | error
  deriving DecidableEq, Repr

/-- The database between two calls and the deferrals not yet committed. -/
structure Progress where
  db : Db
  deferrals : List Nat

/-- The tables as the session sees them. -/
def Progress.view (p : Progress) : Db := (⟨p.deferrals, none⟩ : Session).view p.db

/-- `uq_paper_orders_idempotency` refuses a second order for the signal. -/
def keyTaken (db : Db) (s : Signal) : Bool :=
  db.paperOrders.any fun o => o.idempotencyKey = idempotencyKey s

/-- A refused write raises. -/
def refused (call : Call) (p : Progress) (s : Signal) : Bool := call.dbRaises || keyTaken p.db s

def Progress.rollback (p : Progress) : Progress := ⟨p.db, []⟩

/-- The deferrals that wait are committed with whatever else is. -/
def committed (db : Db) : Progress := ⟨db, []⟩

def Progress.defer (cfg : Settings) (p : Progress) (s : Signal) : Progress :=
  { p with deferrals := if cfg.orderKillSwitch then s.id :: p.deferrals else p.deferrals }

/-- `execute_signal`, with the cycle's rollback when it raises. -/
def attempt (pw : DecPow) (cfg : Settings) (call : Call) (p : Progress)
    (s : Signal) : Outcome × Progress :=
  match executeSignal pw cfg call.now call.retrievedAt p.view s call.book call.feeInfo with
  | .raised => (.error, p.rollback)
  | .deferred _ => (.deferred, p.defer cfg s)
  | .skipped _ after =>
    if refused call p s then (.error, p.rollback) else (.missed, committed after)
  | .filled after => if refused call p s then (.error, p.rollback) else (.filled, committed after)

/-! ## The frames -/

/-- Only the deferral count of the signal may have grown. -/
def DeferredFrame (s : Signal) (before after : Db) : Prop :=
  after = before ∨ after = { before with signals := bumpDeferrals s.id before.signals }

/-- The account is as it was, or has just been created. -/
def SameAccount (cfg : Settings) (before : Db) (account : Option BankrollAccount) : Prop :=
  account = before.account ∨ (before.account = none ∧ account = some (freshAccount cfg))

/-- One missed order, the signal skipped, one row of the log. -/
def MissedFrame (cfg : Settings) (s : Signal) (before after : Db) : Prop :=
  ∃ o entry account, o.signalId = s.id ∧ o.status = .missed ∧
    SameAccount cfg before account ∧ after = { before with
    paperOrders := before.paperOrders ++ [o]
    signals := setStatus .skipped s.id before.signals
    decisionLog := before.decisionLog ++ [entry]
    account := account }

/-- A SELL posts its P&L, when there is any, and nothing else touches the bankroll. -/
def SellPosting (cfg : Settings) (s : Signal) (before : Db) (o : PaperOrder)
    (account : Option BankrollAccount) (ledger : List BankrollLedgerEntry) : Prop :=
  (∃ delta entry, s.side = .sell ∧ o.realizedPnlDelta = some delta ∧ delta ≠ 0 ∧
    account = some { accountOf cfg before with
      realizedPnlTotal := (accountOf cfg before).realizedPnlTotal + delta } ∧
    entry.entryType = .realizedPnl ∧ entry.amount = delta ∧ ledger = before.ledger ++ [entry]) ∨
  ((s.side = .buy ∧ o.realizedPnlDelta = none ∨ s.side = .sell ∧ o.realizedPnlDelta = some 0) ∧
    SameAccount cfg before account ∧ ledger = before.ledger)

/-- One filled order, the signal executed, one row of the log, one position, and
the posting of a SELL. -/
def FilledFrame (cfg : Settings) (s : Signal) (before after : Db) : Prop :=
  ∃ o entry p account ledger, o.signalId = s.id ∧ o.isFill = true ∧ p.key = s.positionKey ∧
    SellPosting cfg s before o account ledger ∧ after = { before with
      paperOrders := before.paperOrders ++ [o]
      signals := setStatus .executed s.id before.signals
      positions := Keyed.put Position.key p before.positions
      decisionLog := before.decisionLog ++ [entry]
      account := account
      ledger := ledger }

/-- What is committed is as it was, the signal still pending. -/
def ErrorFrame (s : Signal) (p after : Progress) : Prop :=
  after.db = p.db ∧ after.deferrals = [] ∧ (after.db.signal s.id).map Signal.status = some .pending

/-- Each outcome against the tables before the call. -/
def OutcomeFrame (cfg : Settings) (s : Signal) (p : Progress) : Outcome × Progress → Prop
  | (.deferred, after) => after.db = p.db ∧ DeferredFrame s p.view after.view
  | (.missed, after) => after.deferrals = [] ∧ MissedFrame cfg s p.view after.db
  | (.filled, after) => after.deferrals = [] ∧ FilledFrame cfg s p.view after.db
  | (.error, after) => ErrorFrame s p after

/-! ## Each outcome keeps to its frame -/

theorem sameAccount_of_gates {cfg : Settings} {before db : Db}
    (h : db = before ∨ db = withAccount cfg before) :
    SameAccount cfg before db.account ∧ db = { before with account := db.account } := by
  rcases h with rfl | rfl
  · exact ⟨.inl rfl, rfl⟩
  · refine ⟨?_, rfl⟩
    show SameAccount cfg before (some (accountOf cfg before))
    unfold accountOf
    cases ha : before.account with
    | none => exact .inr ⟨ha, rfl⟩
    | some a => exact .inl ha.symm

theorem recordSkip_framed {cfg : Settings} {before db : Db}
    (h : db = before ∨ db = withAccount cfg before) (s : Signal) (reason : MissReason)
    (now : Time) (book : Option BookEvidence) :
    MissedFrame cfg s before (recordSkip cfg db s reason now book) := by
  obtain ⟨haccount, hdb⟩ := sameAccount_of_gates h
  refine ⟨missedOrder cfg s reason now book,
    ⟨"bot", .signalSkipped s.id s.sourceTradeId reason⟩, db.account, rfl, rfl, haccount, ?_⟩
  rw [hdb]
  rfl

/-- The order of a fill is filled or partial. -/
theorem fillOk_isFill {cfg : Settings} {cap : ℚ} {owned : Option ℚ} {s : Signal} {fill : Fill}
    (h : FillOk cap owned fill) (now retrievedAt : Time) (snapshot : BookSnapshot) (fee : ℚ)
    (marketFee : MarketFee) (delta : Option ℚ) :
    (filledOrder cfg s now retrievedAt fill snapshot fee marketFee delta).isFill = true := by
  unfold PaperOrder.isFill filledOrder
  dsimp only
  rcases h.status with hs | hs <;> rw [hs] <;> rfl

theorem postFill_posting {cfg : Settings} {before db : Db}
    (h : db = before ∨ db = withAccount cfg before) {s : Signal}
    (hside : s.side = .buy ∨ s.side = .sell) (p : Position) (fill : Fill) (fee : ℚ) {o : PaperOrder}
    (ho : o.realizedPnlDelta = p.fillDelta s.side fill fee) :
    SellPosting cfg s before o (postFill cfg db s (p.fillDelta s.side fill fee)).account
      (postFill cfg db s (p.fillDelta s.side fill fee)).ledger := by
  obtain ⟨haccount, hdb⟩ := sameAccount_of_gates h
  have hledger : db.ledger = before.ledger := by rw [hdb]
  have hof : accountOf cfg db = accountOf cfg before := by
    rcases h with rfl | rfl <;> rfl
  unfold Position.fillDelta at ho ⊢
  rcases hside with hs | hs
  · rw [if_pos hs] at ho ⊢
    exact .inr ⟨.inl ⟨hs, ho⟩, haccount, hledger⟩
  · have hne : ¬ s.side = .buy := by rw [hs]; decide
    rw [if_neg hne] at ho ⊢
    unfold postFill
    dsimp only
    by_cases hzero : p.sellDelta fill.filledSize fill.fillPrice fee = 0
    · rw [hzero, postRealizedPnl_zero]
      exact .inr ⟨.inr ⟨hs, by rw [ho, hzero]⟩, haccount, hledger⟩
    · rw [postRealizedPnl_eq cfg db _ _ hzero]
      rw [hof, hledger]
      exact .inl ⟨_, _, hs, ho, hzero, rfl, rfl, rfl, rfl⟩

theorem commitFill_framed {cfg : Settings} {cap : ℚ} {owned : Option ℚ} {before db : Db}
    (h : db = before ∨ db = withAccount cfg before) {s : Signal}
    (hside : s.side = .buy ∨ s.side = .sell) {fill : Fill} (hfill : FillOk cap owned fill)
    (now retrievedAt : Time) (snapshot : BookSnapshot) (fee : ℚ) (marketFee : MarketFee) :
    FilledFrame cfg s before (commitFill cfg db s now retrievedAt fill snapshot fee marketFee) := by
  have hkey : ((positionFor db s).fill s.side fill fee).key = s.positionKey := by
    rw [fill_key, positionFor_key]
  refine ⟨filledOrder cfg s now retrievedAt fill snapshot fee marketFee
    ((positionFor db s).fillDelta s.side fill fee),
    ⟨"bot", .paperOrderExecuted s.id s.sourceTradeId fill.status fill.fillPrice
      s.sourcePrice fill.filledSize
      fill.depthAvailable fill.levelsConsumed fee⟩,
      (positionFor db s).fill s.side fill fee, _, _, rfl,
    fillOk_isFill hfill now retrievedAt snapshot fee marketFee _, hkey,
    postFill_posting h hside (positionFor db s) fill fee rfl, ?_⟩
  rw [commitFill_eq]
  rcases h with rfl | rfl <;> rfl

theorem find_bump (id id' : Nat) (signals : List Signal) :
    Keyed.find Signal.id id (bumpDeferrals id' signals) =
      (Keyed.find Signal.id id signals).map fun s =>
      if s.id = id' then { s with killSwitchDeferrals := s.killSwitchDeferrals + 1 } else s := by
  have hid : ∀ s : Signal,
      ({ s with killSwitchDeferrals := s.killSwitchDeferrals + 1 } : Signal).id = s.id :=
    fun _ => rfl
  exact Keyed.find_update Signal.id hid signals

/-- A row keeps what no deferral touches. -/
theorem find_bumped {β : Type} (g : Signal → β)
    (hg : ∀ (s : Signal) (n : Nat), g { s with killSwitchDeferrals := n } = g s) (id : Nat)
    (deferrals : List Nat) (signals : List Signal) :
    (Keyed.find Signal.id id (deferrals.foldr bumpDeferrals signals)).map g =
      (Keyed.find Signal.id id signals).map g := by
  induction deferrals with
  | nil => rfl
  | cons id' l ih =>
    rw [← ih, List.foldr_cons, find_bump, Option.map_map]
    refine congrArg (fun f => Option.map f _) (funext fun a => ?_)
    show g (if a.id = id' then _ else a) = g a
    split
    · exact hg a _
    · rfl

/-- A pending row of the session's view is pending in the database. -/
theorem view_pending {p : Progress} {s : Signal} (held : Held p.view s) :
    (p.db.signal s.id).map Signal.status = some .pending := by
  have hrow := find_bumped Signal.status (fun _ _ => rfl) s.id p.deferrals p.db.signals
  rw [show Keyed.find Signal.id s.id (p.deferrals.foldr bumpDeferrals p.db.signals) =
    some s from held.row] at hrow
  exact hrow.symm.trans (congrArg some held.pending)

/-- Every call ends in one of the four outcomes, within its frame. -/
theorem execute_signal_atomic (pw : DecPow) (cfg : Settings)
    (call : Call) (p : Progress) (s : Signal)
    (held : Held p.view s) : OutcomeFrame cfg s p (attempt pw cfg call p s) := by
  have hcase := executeLogged_case pw cfg call.now call.retrievedAt p.view s call.book call.feeInfo
  have hpending := view_pending held
  have herror : ErrorFrame s p p.rollback := ⟨rfl, rfl, hpending⟩
  rw [executeLogged_result] at hcase
  unfold attempt
  generalize (executeLogged pw cfg call.now call.retrievedAt p.view s call.book call.feeInfo).1 =
    requests at hcase
  generalize executeSignal pw cfg call.now call.retrievedAt p.view s call.book
    call.feeInfo = result at hcase
  cases hcase with
  | raised => exact herror
  | deferred off =>
    refine ⟨rfl, .inr ?_⟩
    unfold Progress.defer
    rw [if_pos off]
    rfl
  | delayed on =>
    refine ⟨rfl, .inl ?_⟩
    unfold Progress.defer
    rw [if_neg (by rw [on]; decide)]
  | skipped _ db' reason evidence account =>
    dsimp only
    split
    · exact herror
    · exact ⟨rfl, recordSkip_framed account s reason call.now evidence⟩
  | filled _ db' plan response fill snapshot info fee marketFee gates walk =>
    obtain ⟨hreq, hdb, -⟩ := executeGates_request gates
    obtain ⟨hfill, hside⟩ := afterBook_fill (owned_nonneg hreq.side) walk
    dsimp only
    split
    · exact herror
    · exact ⟨rfl, commitFill_framed hdb hside hfill call.now call.retrievedAt snapshot fee marketFee⟩

/-- A call with one clock reading and the responses of a calm market. -/
def plainCall (now : Time) : Call :=
  ⟨now, now, fun _ => .ok (flatBook "0.5"), fun _ => .ok noFee, false⟩

theorem execute_signal_atomic_due :
    OutcomeFrame liveSettings dueSignal ⟨dueBuy.db, []⟩
      (attempt natPow liveSettings (plainCall 30) ⟨dueBuy.db, []⟩ dueSignal) ∧
    (attempt natPow liveSettings (plainCall 30) ⟨dueBuy.db, []⟩ dueSignal).1 = .filled := by
  refine ⟨execute_signal_atomic _ _ _ _ _ ⟨?_, rfl⟩, by decide +kernel⟩
  decide +kernel

end Polycopy
