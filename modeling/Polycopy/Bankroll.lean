import Polycopy.Config
import Mathlib.Tactic.Linarith
import Mathlib.Tactic.Ring

/-!
# The bankroll

The account row, its postings and the profit sweep.  `postRealizedPnl_eq` and
`sweepProfitIfDue_cases` say once what a posting and a sweep do to the account
and the ledger; nothing later unfolds them.
-/

namespace Polycopy

def freshAccount (cfg : Settings) : BankrollAccount where
  startingBankrollUsd := cfg.startingBankrollUsd
  realizedPnlTotal := 0
  withdrawnTotal := 0
  profitLimitUsd := some cfg.profitLimitUsd
  stopLossFloorUsd := some cfg.stopLossFloorUsd
  sweepPending := false

/-- The singleton row, created from the settings when missing (flushed, not committed). -/
def getOrCreateBankrollAccount (cfg : Settings) (db : Db) : BankrollAccount × Db :=
  match db.account with
  | some a => (a, db)
  | none => (freshAccount cfg, { db with account := some (freshAccount cfg) })

def Position.isOpen (p : Position) : Bool := 0 < p.quantity && p.settledAt.isNone

/-- Cost basis of the open positions. -/
def openPositionCost (db : Db) : ℚ := ((db.positions.filter Position.isOpen).map Position.cost).sum

def stopLossHit (a : BankrollAccount) : Bool :=
  match a.stopLossFloorUsd with
  | none => false
  | some floor => 0 < floor && a.balance ≤ floor

def postRealizedPnl (cfg : Settings) (db : Db) (amount : ℚ) (context : LedgerContext) : Db :=
  if amount = 0 then db
  else
    let (a, db) := getOrCreateBankrollAccount cfg db
    let a := { a with realizedPnlTotal := a.realizedPnlTotal + amount }
    let entry : BankrollLedgerEntry := ⟨.realizedPnl, amount, a.balance, context⟩
    { db with account := some a, ledger := db.ledger ++ [entry] }

def unwithdrawn (a : BankrollAccount) : ℚ := max 0 (a.realizedPnlTotal - a.withdrawnTotal)

/-- The writes of a sweep of `amount`. -/
def postWithdrawal (db : Db) (a : BankrollAccount) (limit amount : ℚ) : Db :=
  let isPartial : Bool := amount < unwithdrawn a
  let a := { a with sweepPending := isPartial, withdrawnTotal := a.withdrawnTotal + amount }
  let entry : BankrollLedgerEntry :=
    ⟨.profitWithdrawal, -amount, a.balance, .withdrawal limit isPartial⟩
  let db := { db with account := some a, ledger := db.ledger ++ [entry] }
  db.log "bot" (.profitWithdrawn amount limit isPartial a.balance)

/-- The database the call leaves in the session, and the swept amount. -/
def sweepProfitIfDue (cfg : Settings) (db : Db) : Db × ℚ :=
  let (a, db) := getOrCreateBankrollAccount cfg db
  match a.profitLimitUsd with
  | none => (db, 0)
  | some limit =>
    if limit ≤ 0 then (db, 0)
    else if unwithdrawn a ≤ 0 then ({ db with account := some { a with sweepPending := false } }, 0)
    else if a.sweepPending = false ∧ unwithdrawn a < limit then (db, 0)
    else
      let amount := min (unwithdrawn a) (max 0 (a.balance - openPositionCost db))
      if amount ≤ 0 then (db, 0)
      else (postWithdrawal db a limit amount, amount)

/-! ## What they do -/

/-- The account as the next write path will find it. -/
def accountOf (cfg : Settings) (db : Db) : BankrollAccount := db.account.getD (freshAccount cfg)

theorem getOrCreateBankrollAccount_eq (cfg : Settings) (db : Db) :
    getOrCreateBankrollAccount cfg db = (accountOf cfg db,
      { db with account := some (accountOf cfg db) }) := by
  unfold getOrCreateBankrollAccount accountOf
  obtain ⟨w, q, m, t, s, g, o, p, l, a, e, th⟩ := db
  cases a <;> rfl

/-- A posting moves the total and the ledger by the same amount; nothing else but
the account's existence changes. -/
theorem postRealizedPnl_eq (cfg : Settings) (db : Db) (amount : ℚ) (context : LedgerContext)
    (h : amount ≠ 0) :
    postRealizedPnl cfg db amount context =
      { db with
        account := some { accountOf cfg db with
          realizedPnlTotal := (accountOf cfg db).realizedPnlTotal + amount }
        ledger := db.ledger ++
          [⟨.realizedPnl, amount, (accountOf cfg db).balance + amount, context⟩] } := by
  unfold postRealizedPnl
  rw [if_neg h, getOrCreateBankrollAccount_eq]
  simp only [BankrollAccount.balance]
  congr 4
  ring

theorem postRealizedPnl_zero (cfg : Settings) (db : Db) (context : LedgerContext) :
    postRealizedPnl cfg db 0 context = db := if_pos rfl

/-- A posting writes the account and the ledger, and reads nothing else. -/
theorem postRealizedPnl_frame (cfg : Settings) (db : Db) (positions : List Position) (amount : ℚ)
    (context : LedgerContext) :
    postRealizedPnl cfg { db with positions := positions } amount context = { db with
      positions := positions
      account := (postRealizedPnl cfg db amount context).account
      ledger := (postRealizedPnl cfg db amount context).ledger } := by
  by_cases h : amount = 0
  · subst h
    rw [postRealizedPnl_zero, postRealizedPnl_zero]
  · rw [postRealizedPnl_eq cfg db amount context h, postRealizedPnl_eq cfg _ amount context h]
    rfl

section
variable (cfg : Settings) (db : Db) (amount : ℚ) (context : LedgerContext)

theorem posted_starting :
    (accountOf cfg (postRealizedPnl cfg db amount context)).startingBankrollUsd =
    (accountOf cfg db).startingBankrollUsd := by
  by_cases h : amount = 0
  · rw [h, postRealizedPnl_zero]
  · rw [postRealizedPnl_eq cfg db amount context h]
    rfl

theorem posted_realized : (accountOf cfg (postRealizedPnl cfg db amount context)).realizedPnlTotal =
    (accountOf cfg db).realizedPnlTotal + amount := by
  by_cases h : amount = 0
  · rw [h, postRealizedPnl_zero, add_zero]
  · rw [postRealizedPnl_eq cfg db amount context h]
    rfl

theorem posted_withdrawn : (accountOf cfg (postRealizedPnl cfg db amount context)).withdrawnTotal =
    (accountOf cfg db).withdrawnTotal := by
  by_cases h : amount = 0
  · rw [h, postRealizedPnl_zero]
  · rw [postRealizedPnl_eq cfg db amount context h]
    rfl

end

/-- The amounts of one kind of entry. -/
def ledgerTotal (kind : LedgerType) (ledger : List BankrollLedgerEntry) : ℚ :=
  ((ledger.filter fun e => e.entryType = kind).map BankrollLedgerEntry.amount).sum

theorem ledgerTotal_snoc (kind : LedgerType) (ledger : List BankrollLedgerEntry)
    (e : BankrollLedgerEntry) :
    ledgerTotal kind (ledger ++ [e]) = ledgerTotal kind ledger + if e.entryType =
      kind then e.amount else 0 := by
  unfold ledgerTotal
  rw [List.filter_append, List.map_append, List.sum_append]
  by_cases h : e.entryType = kind <;> simp [h]

theorem ledger_split (ledger : List BankrollLedgerEntry) :
    (ledger.map BankrollLedgerEntry.amount).sum =
    ledgerTotal .realizedPnl ledger + ledgerTotal .profitWithdrawal ledger := by
  induction ledger with
  | nil => simp [ledgerTotal]
  | cons e l ih =>
    rw [List.map_cons, List.sum_cons, ih]
    unfold ledgerTotal
    cases h : e.entryType <;> simp [h] <;> ring

theorem posted_ledger (cfg : Settings) (db : Db) (amount : ℚ)
    (context : LedgerContext) (kind : LedgerType) :
    ledgerTotal kind (postRealizedPnl cfg db amount context).ledger =
      ledgerTotal kind db.ledger + if kind = .realizedPnl then amount else 0 := by
  by_cases h : amount = 0
  · rw [h, postRealizedPnl_zero]
    split <;> ring
  · rw [postRealizedPnl_eq cfg db amount context h]
    show ledgerTotal kind (db.ledger ++ [_]) = _
    rw [ledgerTotal_snoc]
    cases kind <;> rfl

/-- A sweep of zero leaves at most a created account and a cleared flag in the session. -/
theorem sweepProfitIfDue_cases (cfg : Settings) (db : Db) :
    (sweepProfitIfDue cfg db).2 = 0 ∨
    ∃ limit, 0 < (sweepProfitIfDue cfg db).2 ∧ 0 < limit ∧
      (sweepProfitIfDue cfg db).2 ≤ unwithdrawn (accountOf cfg db) ∧
      (sweepProfitIfDue cfg db).2 ≤ (accountOf cfg db).balance - openPositionCost db ∧
      (accountOf cfg db).profitLimitUsd = some limit ∧
      (sweepProfitIfDue cfg db).1 = postWithdrawal { db with account := some (accountOf cfg db) }
        (accountOf cfg db) limit (sweepProfitIfDue cfg db).2 := by
  have hcost : openPositionCost { db with account := some (accountOf cfg db) } =
    openPositionCost db := rfl
  unfold sweepProfitIfDue
  rw [getOrCreateBankrollAccount_eq]
  dsimp only
  cases hl : (accountOf cfg db).profitLimitUsd with
  | none => exact Or.inl rfl
  | some limit =>
    simp only [hcost]
    split
    · exact Or.inl rfl
    · next hlim =>
      split
      · exact Or.inl rfl
      · split
        · exact Or.inl rfl
        · split
          · exact Or.inl rfl
          · next hpos =>
            right
            rw [not_le] at hlim hpos
            refine ⟨limit, hpos, hlim, min_le_left _ _, ?_, rfl, rfl⟩
            -- the free cash is positive, so the `max 0` in it does not bind
            have hfree := lt_of_lt_of_le hpos (min_le_right _ _)
            rcases lt_max_iff.mp hfree with h | h
            · exact absurd h (lt_irrefl 0)
            · exact (min_le_right _ _).trans (max_eq_right h.le).le

end Polycopy
