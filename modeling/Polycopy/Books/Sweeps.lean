import Polycopy.Api.Routes
import Polycopy.Lib.Run

/-!
# Profit sweeps over whole histories of the account

The bankroll as a machine of its own: postings, positions opened and closed,
changes of the limits, and sweeps, which the caller commits or, at the end of a
cycle, commits only when something was swept.  `withdrawn_total` is what the
withdrawal entries say and stays within what was ever realized.  The flag
`sweep_pending` is the one memory of a crossed limit; it outlives a loss of the
whole pile, because the call that clears it sweeps nothing and is not committed.
-/

namespace Polycopy

open Runs

/-! ## The machine -/

inductive BankrollEvent
  | post (amount : ℚ) (context : LedgerContext)
  | positions (positions : List Position)
  | settings (profitLimitUsd stopLossFloorUsd : Option ℚ)
  /-- A sweep whose caller commits whatever it returns. -/
  | sweep
  /-- `swept = await sweep_profit_if_due(session); if swept > 0: await session.commit()`. -/
  | cycleEnd
  deriving DecidableEq

def bankrollNext (cfg : Settings) (db : Db) : BankrollEvent → Db
  | .post amount context => postRealizedPnl cfg db amount context
  | .positions positions => { db with positions := positions }
  | .settings profitLimitUsd stopLossFloorUsd =>
    updateBankrollSettings cfg profitLimitUsd stopLossFloorUsd db
  | .sweep => (sweepProfitIfDue cfg db).1
  | .cycleEnd => if 0 < (sweepProfitIfDue cfg db).2 then (sweepProfitIfDue cfg db).1 else db

def BankrollStep (cfg : Settings) (db : Db) (e : BankrollEvent) (db' : Db) :
    Prop := bankrollNext cfg db e = db'

def BankrollEvent.isSweep : BankrollEvent → Bool
  | .sweep | .cycleEnd => true
  | _ => false

/-- What the event moves out of the bankroll. -/
def swept (cfg : Settings) (db : Db) (e : BankrollEvent) : ℚ :=
  if e.isSweep then (sweepProfitIfDue cfg db).2 else 0

/-- No account yet, and an empty ledger. -/
def FreshBankroll (db : Db) : Prop := db.account = none ∧ db.ledger = []

/-- `realized_pnl_total - withdrawn_total`. -/
def pile (cfg : Settings) (db : Db) : ℚ :=
  (accountOf cfg db).realizedPnlTotal - (accountOf cfg db).withdrawnTotal

/-- The magnitudes of the withdrawal entries. -/
def withdrawnAmounts (ledger : List BankrollLedgerEntry) : ℚ :=
  ((ledger.filter fun e => e.entryType = .profitWithdrawal).map fun e => |e.amount|).sum

theorem withdrawnAmounts_snoc (ledger : List BankrollLedgerEntry) (e : BankrollLedgerEntry) :
    withdrawnAmounts (ledger ++ [e]) = withdrawnAmounts ledger + if e.entryType =
      .profitWithdrawal then |e.amount| else 0 := by
  unfold withdrawnAmounts
  rw [List.filter_append, List.map_append, List.sum_append]
  by_cases h : e.entryType = .profitWithdrawal <;> simp [h]

/-! ## What each event does -/

/-- The account row as the settings request leaves it. -/
theorem updated_account (cfg : Settings) (p l : Option ℚ) (db : Db) :
    accountOf cfg (updateBankrollSettings cfg p l db) = { accountOf cfg db with
      profitLimitUsd := p.orElse fun _ => (accountOf cfg db).profitLimitUsd
      stopLossFloorUsd := l.orElse fun _ => (accountOf cfg db).stopLossFloorUsd } ∧
    (updateBankrollSettings cfg p l db).ledger = db.ledger := by
  unfold updateBankrollSettings
  rw [getOrCreateBankrollAccount_eq]
  dsimp only
  split <;> exact ⟨rfl, rfl⟩

/-- When money is due: the limit is on, and reached unless a partial sweep left its flag. -/
theorem sweep_due {cfg : Settings} {db : Db} (h : 0 < (sweepProfitIfDue cfg db).2) :
    ∃ limit, (accountOf cfg db).profitLimitUsd = some limit ∧ 0 < limit ∧ 0 < pile cfg db ∧
      ((accountOf cfg db).sweepPending = true ∨ limit ≤ pile cfg db) := by
  unfold sweepProfitIfDue at h
  rw [getOrCreateBankrollAccount_eq] at h
  dsimp only at h
  split at h
  · exact absurd h (lt_irrefl 0)
  · next limit hlimit =>
    split at h
    · exact absurd h (lt_irrefl 0)
    · next hpos =>
      split at h
      · exact absurd h (lt_irrefl 0)
      · next hpile =>
        split at h
        · exact absurd h (lt_irrefl 0)
        · next hdue =>
          have hunwithdrawn : unwithdrawn (accountOf cfg db) = pile cfg db := by
            rcases le_or_gt (pile cfg db) 0 with hle | hlt
            · exact absurd (max_eq_left hle).le hpile
            · exact max_eq_right hlt.le
          rw [hunwithdrawn] at hpile hdue
          refine ⟨limit, hlimit, not_le.mp hpos, not_le.mp hpile, ?_⟩
          rw [not_and_or] at hdue
          exact hdue.imp (fun hflag => by simpa using hflag) not_lt.mp

/-- A sweep that moves nothing changes at most the flag. -/
theorem sweep_zero {cfg : Settings} {db : Db} (h : (sweepProfitIfDue cfg db).2 = 0) :
    ∃ flag, accountOf cfg (sweepProfitIfDue cfg db).1 =
      { accountOf cfg db with sweepPending := flag } ∧
      (sweepProfitIfDue cfg db).1.ledger = db.ledger := by
  unfold sweepProfitIfDue at h ⊢
  rw [getOrCreateBankrollAccount_eq] at h ⊢
  dsimp only at h ⊢
  split at h
  · exact ⟨_, rfl, rfl⟩
  · split at h
    · next hlimit =>
      rw [if_pos hlimit]
      exact ⟨_, rfl, rfl⟩
    · next hlimit =>
      rw [if_neg hlimit]
      split at h
      · next hpile =>
        rw [if_pos hpile]
        exact ⟨_, rfl, rfl⟩
      · next hpile =>
        rw [if_neg hpile]
        split at h
        · next hdue =>
          rw [if_pos hdue]
          exact ⟨_, rfl, rfl⟩
        · next hdue =>
          rw [if_neg hdue]
          split at h
          · next hnone =>
            rw [if_pos hnone]
            exact ⟨_, rfl, rfl⟩
          · next hsome => exact absurd h.le hsome

/-- Nothing left the bankroll. -/
structure Unswept (cfg : Settings) (db db' : Db) : Prop where
  starting : (accountOf cfg db').startingBankrollUsd = (accountOf cfg db).startingBankrollUsd
  withdrawn : (accountOf cfg db').withdrawnTotal = (accountOf cfg db).withdrawnTotal
  entries : withdrawnAmounts db'.ledger = withdrawnAmounts db.ledger

/-- An amount left the bankroll. -/
structure Swept (cfg : Settings) (db : Db) (amount : ℚ) (db' : Db) : Prop where
  positive : 0 < amount
  le_pile : amount ≤ pile cfg db
  le_free : amount ≤ (accountOf cfg db).balance - openPositionCost db
  due : ∃ limit, (accountOf cfg db).profitLimitUsd = some limit ∧ 0 < limit ∧
    ((accountOf cfg db).sweepPending = true ∨ limit ≤ pile cfg db)
  starting : (accountOf cfg db').startingBankrollUsd = (accountOf cfg db).startingBankrollUsd
  realized : (accountOf cfg db').realizedPnlTotal = (accountOf cfg db).realizedPnlTotal
  withdrawn : (accountOf cfg db').withdrawnTotal = (accountOf cfg db).withdrawnTotal + amount
  entries : withdrawnAmounts db'.ledger = withdrawnAmounts db.ledger + amount

theorem sweep_cases (cfg : Settings) (db : Db) :
    ((sweepProfitIfDue cfg db).2 = 0 ∧ Unswept cfg db (sweepProfitIfDue cfg db).1) ∨
      Swept cfg db (sweepProfitIfDue cfg db).2 (sweepProfitIfDue cfg db).1 := by
  rcases sweepProfitIfDue_cases cfg db with hzero | ⟨limit, hpos, -, hle, hfree, -, hafter⟩
  · left
    obtain ⟨flag, haccount, hledger⟩ := sweep_zero hzero
    exact ⟨hzero, by rw [haccount], by rw [haccount], by rw [hledger]⟩
  · right
    obtain ⟨limit', hlimit, hlimpos, hpile, hdue⟩ := sweep_due hpos
    rw [show unwithdrawn (accountOf cfg db) = pile cfg db from max_eq_right hpile.le] at hle
    generalize (sweepProfitIfDue cfg db).2 = amount at hpos hle hfree hafter
    rw [hafter]
    refine ⟨hpos, hle, hfree, ⟨limit', hlimit, hlimpos, hdue⟩, rfl, rfl, rfl, ?_⟩
    refine (withdrawnAmounts_snoc db.ledger _).trans (congrArg (withdrawnAmounts db.ledger + ·) ?_)
    show |-amount| = amount
    rw [abs_neg, abs_of_pos hpos]

/-- What any event does to the money taken out, and to the flag. -/
theorem bankroll_cases (cfg : Settings) (db : Db) (e : BankrollEvent) :
    (swept cfg db e = 0 ∧ Unswept cfg db (bankrollNext cfg db e) ∧
      (e ≠ .sweep → (accountOf cfg (bankrollNext cfg db e)).sweepPending =
        (accountOf cfg db).sweepPending)) ∨
    (e.isSweep = true ∧ Swept cfg db (swept cfg db e) (bankrollNext cfg db e)) := by
  cases e with
  | post amount context =>
    left
    unfold bankrollNext
    dsimp only
    by_cases h : amount = 0
    · rw [h, postRealizedPnl_zero]
      exact ⟨rfl, ⟨rfl, rfl, rfl⟩, fun _ => rfl⟩
    · rw [postRealizedPnl_eq cfg db amount context h]
      exact ⟨rfl, ⟨rfl, rfl, (withdrawnAmounts_snoc db.ledger _).trans (add_zero _)⟩, fun _ => rfl⟩
  | positions positions => exact .inl ⟨rfl, ⟨rfl, rfl, rfl⟩, fun _ => rfl⟩
  | settings p l =>
    obtain ⟨haccount, hledger⟩ := updated_account cfg p l db
    left
    unfold bankrollNext
    exact ⟨rfl, ⟨by rw [haccount], by rw [haccount], by rw [hledger]⟩, fun _ => by rw [haccount]⟩
  | sweep =>
    exact (sweep_cases cfg db).imp (fun h => ⟨h.1, h.2, fun hne => absurd rfl hne⟩) fun h => ⟨rfl, h⟩
  | cycleEnd =>
    unfold bankrollNext
    dsimp only
    rcases sweep_cases cfg db with ⟨hzero, -⟩ | hswept
    · rw [if_neg hzero.le.not_gt]
      exact .inl ⟨hzero, ⟨rfl, rfl, rfl⟩, fun _ => rfl⟩
    · rw [if_pos hswept.positive]
      exact .inr ⟨rfl, hswept⟩

/-! ## Whole runs -/

/-- Every state of a run so far, the latest first. -/
def moments (start : Db) (tr : List (BankrollEvent × Db)) : List Db :=
  (start :: tr.map Prod.snd).reverse

theorem moments_snoc (start : Db) (tr : List (BankrollEvent × Db)) (e : BankrollEvent) (db : Db) :
    moments start (tr ++ [(e, db)]) = db :: moments start tr := by
  unfold moments
  rw [List.map_append, ← List.cons_append, List.reverse_append]
  rfl

/-- What the call returns is what leaves the bankroll; it takes profit only, from cash that is free,
with the limit on, and leaves the starting bankroll. -/
structure SweepSafe (cfg : Settings) (db : Db) (e : BankrollEvent) (db' : Db) : Prop where
  withdrawn : (accountOf cfg db').withdrawnTotal = (accountOf cfg db).withdrawnTotal + swept cfg db e
  entries : withdrawnAmounts db'.ledger = withdrawnAmounts db.ledger + swept cfg db e
  balance : e.isSweep = true → (accountOf cfg db').balance =
    (accountOf cfg db).balance - swept cfg db e
  kept : e.isSweep = true → swept cfg db e = 0 → db'.ledger = db.ledger
  amount : swept cfg db e ≠ 0 → 0 < swept cfg db e ∧ swept cfg db e ≤ pile cfg db ∧
    swept cfg db e ≤ (accountOf cfg db).balance - openPositionCost db ∧
    (∃ limit, (accountOf cfg db).profitLimitUsd = some limit ∧ 0 < limit) ∧
    (accountOf cfg db').startingBankrollUsd ≤ (accountOf cfg db').balance

/-- A sweep of nothing leaves balance and ledger. -/
theorem sweep_nothing {cfg : Settings} {db : Db} {e : BankrollEvent} (he : e.isSweep = true)
    (hzero : swept cfg db e = 0) :
    (accountOf cfg (bankrollNext cfg db e)).balance = (accountOf cfg db).balance ∧
      (bankrollNext cfg db e).ledger = db.ledger := by
  unfold swept at hzero
  rw [if_pos he] at hzero
  obtain ⟨flag, haccount, hledger⟩ := sweep_zero hzero
  cases e with
  | sweep =>
    unfold bankrollNext
    exact ⟨by rw [haccount]; rfl, hledger⟩
  | cycleEnd =>
    unfold bankrollNext
    dsimp only
    rw [if_neg hzero.le.not_gt]
    exact ⟨rfl, rfl⟩
  | _ => cases he

theorem sweepSafe_step (cfg : Settings) (db : Db) (e : BankrollEvent) :
    SweepSafe cfg db e (bankrollNext cfg db e) := by
  rcases bankroll_cases cfg db e with ⟨hzero, hunswept, -⟩ | ⟨he, h⟩
  · refine ⟨?_, ?_, fun he => ?_, fun he _ => (sweep_nothing he hzero).2,
      fun hne => absurd hzero hne⟩
    · rw [hzero, add_zero, hunswept.withdrawn]
    · rw [hzero, add_zero, hunswept.entries]
    · rw [hzero, sub_zero, (sweep_nothing he hzero).1]
  · obtain ⟨limit, hlimit, hpos, -⟩ := h.due
    have hbalance : (accountOf cfg (bankrollNext cfg db e)).balance =
        (accountOf cfg db).balance - swept cfg db e := by
      unfold BankrollAccount.balance
      rw [h.starting, h.realized, h.withdrawn]
      ring
    refine ⟨h.withdrawn, h.entries, fun _ => hbalance,
      fun _ hzero => absurd hzero h.positive.ne', fun _ => ?_⟩
    refine ⟨h.positive, h.le_pile, h.le_free, ⟨limit, hlimit, hpos⟩, ?_⟩
    have hle := h.le_pile
    unfold pile at hle
    rw [hbalance, h.starting]
    unfold BankrollAccount.balance
    linarith

/-- In every run of a fresh bankroll: each sweep is safe, and what was withdrawn never falls, is
what the entries say, and is no more than was once realized. -/
theorem sweeps_safe (cfg : Settings) (start : Db) (tr : List (BankrollEvent × Db)) (db : Db)
    (run : Run (BankrollStep cfg) start tr db) (fresh : FreshBankroll start) :
    Each (SweepSafe cfg) start tr ∧
    (tr.Pairwise fun x y => (accountOf cfg x.2).withdrawnTotal ≤
      (accountOf cfg y.2).withdrawnTotal) ∧
    (accountOf cfg db).withdrawnTotal = withdrawnAmounts db.ledger ∧
    ∃ past ∈ moments start tr, (accountOf cfg db).withdrawnTotal ≤
      (accountOf cfg past).realizedPnlTotal := by
  refine ⟨?_, ?_, ?_⟩
  · induction run with
    | nil => trivial
    | snoc e u hr hs ih =>
      rw [each_snoc, hr.last_eq]
      obtain rfl := hs
      exact ⟨ih, sweepSafe_step cfg _ e⟩
  · refine (run.pairwise (fun a b => (accountOf cfg a).withdrawnTotal ≤
      (accountOf cfg b).withdrawnTotal)
      (fun _ => le_refl _) (fun _ _ _ => le_trans) ?_).1
    rintro s e t rfl
    rcases bankroll_cases cfg s e with ⟨-, h, -⟩ | ⟨-, h⟩
    · exact h.withdrawn.ge
    · rw [h.withdrawn]
      exact le_add_of_nonneg_right h.positive.le
  · induction run with
    | nil =>
      have haccount : accountOf cfg start = freshAccount cfg := by
        unfold accountOf
        rw [fresh.1]
        rfl
      rw [haccount, fresh.2]
      exact ⟨rfl, start, List.mem_reverse.mpr List.mem_cons_self, by rw [haccount]; exact le_refl _⟩
    | @snoc tr s e u hr hs ih =>
      obtain ⟨hsum, past, hpast, hle⟩ := ih
      obtain rfl := hs
      rw [moments_snoc]
      rcases bankroll_cases cfg s e with ⟨-, h, -⟩ | ⟨-, h⟩
      · rw [h.withdrawn, h.entries]
        exact ⟨hsum, past, List.mem_cons_of_mem _ hpast, hle⟩
      · rw [h.withdrawn, h.entries, hsum]
        refine ⟨rfl, bankrollNext cfg s e, List.mem_cons_self, ?_⟩
        have hpile := h.le_pile
        unfold pile at hpile
        rw [h.realized, ← hsum]
        linarith

/-! ## A run by its events -/

def bankrollTrace (cfg : Settings) : Db → List BankrollEvent → List (BankrollEvent × Db)
  | _, [] => []
  | db, e :: es => (e, bankrollNext cfg db e) :: bankrollTrace cfg (bankrollNext cfg db e) es

theorem bankrollTrace_run (cfg : Settings) (es : List BankrollEvent) : ∀ db : Db,
    Run (BankrollStep cfg) db (bankrollTrace cfg db es) (last db (bankrollTrace cfg db es)) := by
  induction es with
  | nil => exact fun db => .nil
  | cons e es ih =>
    intro db
    have hstep : BankrollStep cfg db e (bankrollNext cfg db e) := rfl
    exact (Run.single hstep).trans (ih (bankrollNext cfg db e))

theorem bankrollTrace_events (cfg : Settings) (es : List BankrollEvent) : ∀ db : Db,
    (bankrollTrace cfg db es).map Prod.fst = es := by
  induction es with
  | nil => exact fun _ => rfl
  | cons e es ih => exact fun db => congrArg (e :: ·) (ih (bankrollNext cfg db e))

/-- A trace of events that are all cycle ends or none of the sweeps' business. -/
theorem bankrollTrace_cycles {cfg : Settings} {db : Db}
    {es : List BankrollEvent} (h : .sweep ∉ es) :
    ∀ x ∈ bankrollTrace cfg db es, x.1 ≠ .sweep := by
  intro x hx he
  refine h ?_
  rw [← bankrollTrace_events cfg es db, ← he]
  exact List.mem_map_of_mem hx

/-- Sixty dollars of profit, of which thirty are free. -/
def partialSweep : List BankrollEvent :=
  [.post 60 (.settlement 1 1 1 "Yes" "Yes"),
    .positions [⟨1, 1, 1, "Yes", 230, 1, 0, none, none⟩], .cycleEnd]

theorem sweeps_safe_partial :
    Each (SweepSafe {}) Db.empty (bankrollTrace {} Db.empty partialSweep) ∧
      (accountOf {} (last Db.empty (bankrollTrace {} Db.empty partialSweep))).withdrawnTotal = 30 ∧
      (accountOf {} (last Db.empty (bankrollTrace {} Db.empty partialSweep))).withdrawnTotal =
        withdrawnAmounts (last Db.empty (bankrollTrace {} Db.empty partialSweep)).ledger := by
  obtain ⟨hsafe, -, hsum, -⟩ :=
    sweeps_safe {} Db.empty _ _ (bankrollTrace_run {} partialSweep Db.empty) ⟨rfl, rfl⟩
  exact ⟨hsafe, by decide +kernel, hsum⟩

/-! ## Re-crossing the limit -/

/-- The profit not withdrawn is at the limit then in force. -/
def AtLimit (cfg : Settings) (db : Db) : Prop :=
  ∃ limit, (accountOf cfg db).profitLimitUsd = some limit ∧ 0 < limit ∧ limit ≤ pile cfg db

/-- At some moment since it was last at or below zero, it was at the limit; latest moment first. -/
def CrossedSince (cfg : Settings) : List Db → Prop
  | [] => False
  | db :: past => 0 < pile cfg db ∧ (AtLimit cfg db ∨ CrossedSince cfg past)

/-- A sweep that moves money comes after such a crossing. -/
def Recrossed (cfg : Settings) : List Db → Prop
  | [] => True
  | db :: past => 0 < (sweepProfitIfDue cfg db).2 → CrossedSince cfg (db :: past)

/-- When the sweep goes by the flag alone, the profit has stayed above zero
since the last withdrawal. -/
def NotStale (cfg : Settings) : List Db → Prop
  | [] => True
  | db :: past =>
    ∀ limit, (accountOf cfg db).profitLimitUsd = some limit →
      0 < pile cfg db → pile cfg db < limit →
      (accountOf cfg db).sweepPending = true → ∀ earlier ∈ db :: past,
        (accountOf cfg earlier).withdrawnTotal = (accountOf cfg db).withdrawnTotal →
        0 < pile cfg earlier

/-- Something of the moments before each end of a cycle. -/
def AtCycleEnds (P : List Db → Prop) : List Db → List (BankrollEvent × Db) → Prop
  | _, [] => True
  | past, (e, db) :: tr => (e.isSweep = true → P past) ∧ AtCycleEnds P (db :: past) tr

/-- The flag remembers a crossing for as long as the profit stays above zero. -/
def FlagSound (cfg : Settings) : List Db → Prop
  | [] => True
  | db :: past => (accountOf cfg db).sweepPending = true → (∀ earlier ∈ db :: past,
      (accountOf cfg earlier).withdrawnTotal = (accountOf cfg db).withdrawnTotal →
      0 < pile cfg earlier) →
      CrossedSince cfg (db :: past)

theorem recrossed_of_flag {cfg : Settings} {db : Db} {past : List Db}
    (hflag : FlagSound cfg (db :: past))
    (hstale : NotStale cfg (db :: past)) : Recrossed cfg (db :: past) := by
  intro hpos
  obtain ⟨limit, hlimit, hlimpos, hpile, hdue⟩ := sweep_due hpos
  rcases le_or_gt limit (pile cfg db) with hle | hlt
  · exact ⟨hpile, .inl ⟨limit, hlimit, hlimpos, hle⟩⟩
  · have hpending := hdue.resolve_right hlt.not_ge
    exact hflag hpending (hstale limit hlimit hpile hlt hpending)

theorem flagSound_next {cfg : Settings} {db : Db} {past : List Db}
    (hflag : FlagSound cfg (db :: past)) {e : BankrollEvent} (he : e ≠ .sweep)
    (hrecrossed : e.isSweep = true → Recrossed cfg (db :: past)) :
    FlagSound cfg (bankrollNext cfg db e :: db :: past) := by
  intro hpending habove
  refine ⟨habove _ List.mem_cons_self rfl, .inr ?_⟩
  rcases bankroll_cases cfg db e with ⟨-, hunswept, hkept⟩ | ⟨hsweep, hswept⟩
  · rw [hkept he] at hpending
    refine hflag hpending fun earlier hmem hsame => ?_
    exact habove earlier (List.mem_cons_of_mem _ hmem) (hsame.trans hunswept.withdrawn.symm)
  · refine hrecrossed hsweep ?_
    have hpos := hswept.positive
    unfold swept at hpos
    rwa [if_pos hsweep] at hpos

theorem run_each {cfg : Settings} {start db : Db} {tr : List (BankrollEvent × Db)}
    (run : Run (BankrollStep cfg) start tr db) : Each (BankrollStep cfg) start tr := by
  induction run with
  | nil => trivial
  | snoc e u hr hs ih =>
    rw [each_snoc, hr.last_eq]
    exact ⟨ih, hs⟩

theorem recrossed_along {cfg : Settings} :
    ∀ (tr : List (BankrollEvent × Db)) (db : Db) (past : List Db),
    Each (BankrollStep cfg) db tr → (∀ x ∈ tr, x.1 ≠ .sweep) → FlagSound cfg (db :: past) →
    AtCycleEnds (NotStale cfg) (db :: past) tr → AtCycleEnds (Recrossed cfg) (db :: past) tr := by
  intro tr
  induction tr with
  | nil => exact fun _ _ _ _ _ _ => trivial
  | cons x tr ih =>
    rintro db past ⟨hstep, hrest⟩ hcycles hflag ⟨hstale, hstales⟩
    obtain ⟨e, u⟩ := x
    have hu : bankrollNext cfg db e = u := hstep
    subst hu
    have hrecrossed : e.isSweep = true → Recrossed cfg (db :: past) :=
      fun he => recrossed_of_flag hflag (hstale he)
    refine ⟨hrecrossed, ih _ _ hrest (fun x hx => hcycles x (List.mem_cons_of_mem _ hx)) ?_ hstales⟩
    exact flagSound_next hflag (hcycles _ List.mem_cons_self) hrecrossed

/-- In every run of cycles whose sweeps do not go by a stale flag, each sweep comes after a crossing
of the limit since the profit was last at or below zero. -/
theorem sweeps_recross (cfg : Settings) (start : Db) (tr : List (BankrollEvent × Db)) (db : Db)
    (run : Run (BankrollStep cfg) start tr db) (fresh : FreshBankroll start)
    (cycles : ∀ x ∈ tr, x.1 ≠ .sweep) (notStale : AtCycleEnds (NotStale cfg) [start] tr) :
    AtCycleEnds (Recrossed cfg) [start] tr := by
  refine recrossed_along tr start [] (run_each run) cycles (fun hpending => ?_) notStale
  have haccount : accountOf cfg start = freshAccount cfg := by
    unfold accountOf
    rw [fresh.1]
    rfl
  rw [haccount] at hpending
  cases hpending

theorem notStale_of {cfg : Settings} {db : Db} {past : List Db} (limit : ℚ)
    (hlimit : (accountOf cfg db).profitLimitUsd = some limit)
    (h : limit ≤ pile cfg db ∨ ∀ earlier ∈ db :: past,
      (accountOf cfg earlier).withdrawnTotal = (accountOf cfg db).withdrawnTotal →
      0 < pile cfg earlier) :
    NotStale cfg (db :: past) := by
  intro limit' hlimit' _ hlt _
  obtain rfl := Option.some.inj (hlimit.symm.trans hlimit')
  exact h.resolve_left hlt.not_ge

/-- The position closes, and the next cycle takes the rest. -/
def sweptLater : List BankrollEvent := partialSweep ++ [.positions [], .cycleEnd]

theorem sweeps_recross_later :
    AtCycleEnds (Recrossed {}) [Db.empty] (bankrollTrace {} Db.empty sweptLater) ∧
    (accountOf {} (last Db.empty (bankrollTrace {} Db.empty sweptLater))).withdrawnTotal = 60 := by
  refine ⟨sweeps_recross {} Db.empty _ _ (bankrollTrace_run {} sweptLater Db.empty) ⟨rfl, rfl⟩
    (bankrollTrace_cycles (by decide)) ?_, by decide +kernel⟩
  exact ⟨nofun, nofun, fun _ => notStale_of 50 (by decide +kernel) (.inl (by decide +kernel)), nofun,
    fun _ => notStale_of 50 (by decide +kernel) (.inr (by decide +kernel)), trivial⟩

/-- The rest is lost, one cycle finds nothing to sweep, and twenty dollars come in: the next sweep
takes what is left of them, far below the limit. -/
def sweptAfterLoss : List BankrollEvent := partialSweep ++
  [.post (-40) (.settlement 2 1 2 "Yes" "No"), .cycleEnd, .positions [],
    .post 20 (.settlement 3 1 3 "Yes" "Yes"), .cycleEnd]

theorem sweep_by_stale_flag :
    ¬ ∀ (cfg : Settings) (start : Db) (tr : List (BankrollEvent × Db)) (db : Db),
    Run (BankrollStep cfg) start tr db → FreshBankroll start → (∀ x ∈ tr, x.1 ≠ .sweep) →
    AtCycleEnds (Recrossed cfg) [start] tr := by
  intro h
  have hrun := h {} Db.empty _ _ (bankrollTrace_run {} sweptAfterLoss Db.empty) ⟨rfl, rfl⟩
    (bankrollTrace_cycles (by decide))
  obtain ⟨-, -, -, -, -, -, -, hlast, -⟩ := hrun
  obtain ⟨-, ⟨limit, hlimit, -, hle⟩ | ⟨hneg, -⟩⟩ := hlast rfl (by decide +kernel)
  · obtain rfl : 50 = limit := Option.some.inj ((by decide +kernel : some (50 : ℚ) = _).trans hlimit)
    exact absurd hle (by decide +kernel)
  · exact absurd hneg (by decide +kernel)

end Polycopy
