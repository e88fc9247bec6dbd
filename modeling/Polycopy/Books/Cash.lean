import Polycopy.Books.Conservation
import Polycopy.Books.Exposure
import Polycopy.Books.SettledOnce

/-!
# Available cash

`sweep_profit_if_due` concludes that available cash, the balance less the cost
of the open positions, never goes negative.  A BUY and a sweep are checked
against it, a settlement only adds to it.  A SELL is not checked: it adds its
proceeds and takes its fee, and nothing bounds the fee.  The step lemmas say
exactly what each commit does to the cash, and the conclusion holds of the runs
in which every SELL covers its fee.
-/

namespace Polycopy

def availableCash (cfg : Settings) (db : Db) : ℚ := (accountOf cfg db).balance - openPositionCost db

/-- The cash a BUY is checked against: it counts every position, as `execute_signal` does. -/
def buyingCash (cfg : Settings) (db : Db) : ℚ := (accountOf cfg db).balance - globalExposure db

theorem buyingCash_eq {cfg : Settings} {db : Db} (h : SettledRows db) :
    buyingCash cfg db = availableCash cfg db := by
  unfold buyingCash availableCash
  rw [h.exposure]

/-! ## What a fill and a settlement do to it -/

theorem posted_balance (cfg : Settings) (db : Db) (amount : ℚ) (context : LedgerContext) :
    (accountOf cfg (postRealizedPnl cfg db amount context)).balance =
      (accountOf cfg db).balance + amount := by
  unfold BankrollAccount.balance
  rw [posted_starting, posted_realized, posted_withdrawn]
  ring

theorem swept_balance (cfg : Settings) (db : Db) (a : BankrollAccount) (limit amount : ℚ) :
    (accountOf cfg (postWithdrawal db a limit amount)).balance = a.balance - amount := by
  show a.startingBankrollUsd + a.realizedPnlTotal - (a.withdrawnTotal + amount) =
    a.startingBankrollUsd + a.realizedPnlTotal - a.withdrawnTotal - amount
  ring

theorem postFill_balance (cfg : Settings) (db : Db) (s : Signal) (delta : Option ℚ) :
    (accountOf cfg (postFill cfg db s delta)).balance =
      (accountOf cfg db).balance + delta.getD 0 := by
  cases delta with
  | none => exact (add_zero _).symm
  | some d => exact posted_balance _ _ _ _

/-- A BUY takes its dollars and its fee, a SELL adds its proceeds less its fee. -/
theorem fill_buyingCash {cfg : Settings} {db : Db} {s : Signal}
    {plan : Plan} {fill : Fill} {fee : ℚ} (guard : FillGuard cfg db s plan fill fee)
    (hq : 0 ≤ (positionFor db s).quantity) (now retrievedAt : Time) (snapshot : BookSnapshot)
    (marketFee : MarketFee) :
    buyingCash cfg (commitFill cfg db s now retrievedAt fill snapshot fee marketFee) =
      buyingCash cfg db +
      ((if s.side = .sell then fill.filledSize * fill.fillPrice - fee else 0) -
        (if s.side = .buy then fill.filledSize * fill.fillPrice + fee else 0)) := by
  have hcash := fill_cash guard hq
  have hexp := (fill_exposure cfg db s now retrievedAt fill snapshot fee marketFee 0).1
  have hbal : (accountOf cfg
      (commitFill cfg db s now retrievedAt fill snapshot fee marketFee)).balance =
      (accountOf cfg db).balance + ((positionFor db s).fillDelta s.side fill fee).getD 0 := by
    rw [commitFill_eq]
    exact postFill_balance cfg db s _
  unfold buyingCash
  rw [hexp, hbal]
  linarith

theorem settle_buyingCash (cfg : Settings) (now : Time) {db : Db}
    (hn : (db.positions.map Position.key).Nodup) {p : Position} (hp : p ∈ db.positions)
    (st : Settlement) :
    buyingCash cfg (settlePosition cfg now db (p, st)) = buyingCash cfg db +
      p.quantity * settlePrice p st := by
  have hbal : (accountOf cfg (settlePosition cfg now db (p, st))).balance =
      (accountOf cfg db).balance + settlementPnl p st := by
    rw [settlePosition_eq]
    exact posted_balance _ _ _ _
  have hexp : globalExposure (settlePosition cfg now db (p, st)) =
      globalExposure db + 0 - p.cost := by
    rw [settlePosition_eq]
    show ((Keyed.put _ _ _).map Position.cost).sum = _
    rw [sum_put_stored hn hp (rfl : (p.settle st now).key = p.key)]
    rw [show (p.settle st now).cost = 0 from zero_mul _]
    rfl
  unfold buyingCash
  rw [hbal, hexp]
  unfold settlementPnl Position.cost
  ring

theorem settle_cash_le (cfg : Settings) (now : Time) (rows : List (Position × Settlement)) :
    ∀ db : Db, Tables db → (rows.map fun row => row.1.key).Nodup →
      (∀ row ∈ rows, row ∈ settleRows db) →
      buyingCash cfg db ≤ buyingCash cfg (settlePaperPositions cfg now db rows) := by
  induction rows with
  | nil => intro db _ _ _; exact le_refl _
  | cons row rest ih =>
    intro db ht hn hrows
    obtain ⟨p, st⟩ := row
    rw [List.map_cons, List.nodup_cons] at hn
    obtain ⟨hp, ho, hst⟩ := mem_settleRows.mp (hrows _ List.mem_cons_self)
    have hstep := settle_buyingCash cfg now ht.positionKeys hp st
    have hq : 0 < p.quantity := by
      unfold Position.isOpen at ho
      simpa using (Bool.and_eq_true_iff.mp ho).1
    have hgain : 0 ≤ p.quantity * settlePrice p st := by
      refine mul_nonneg hq.le ?_
      unfold settlePrice
      split
      · exact zero_le_one
      · exact le_refl _
    have hrest := ih (settlePosition cfg now db (p, st))
      ((Effect.settled db p st now hp ho hst : Effect cfg db _).tables ht) hn.2 ?_
    · unfold settlePaperPositions at hrest ⊢
      rw [List.foldl_cons]
      linarith
    · rintro ⟨q, st'⟩ hq'
      obtain ⟨hq1, hq2, hq3⟩ := mem_settleRows.mp (hrows _ (List.mem_cons_of_mem _ hq'))
      rw [settlePosition_eq]
      refine mem_settleRows.mpr ⟨Keyed.mem_put_of_ne Position.key hq1 ?_, hq2, hq3⟩
      exact fun e => hn.1 (List.mem_map.mpr ⟨_, hq', e⟩)

/-! ## Positions come with an account -/

theorem posted_created (cfg : Settings) (db : Db) (amount : ℚ) (context : LedgerContext)
    (h : db.account.isSome = true) :
    (postRealizedPnl cfg db amount context).account.isSome = true := by
  by_cases h0 : amount = 0
  · rw [h0, postRealizedPnl_zero]
    exact h
  · rw [postRealizedPnl_eq cfg db amount context h0]
    rfl

/-- The first BUY creates the account. -/
def AccountFirst (db : Db) : Prop := db.positions ≠ [] → db.account.isSome = true

theorem AccountFirst.effect {cfg : Settings} {db db' : Db}
    (h : AccountFirst db) (he : Effect cfg db db') :
    AccountFirst db' := by
  cases he with
  | same hs =>
    intro hne
    rw [hs.positions] at hne
    exact hs.created (h hne)
  | detected | deferred | missed => exact h
  | swept limit amount => exact fun _ => rfl
  | settled p st now mem =>
    intro _
    rw [settlePosition_eq]
    exact posted_created _ _ _ _ (h (List.ne_nil_of_mem mem))
  | filled s plan now retrievedAt fill snapshot fee marketFee guard =>
    intro _
    have hsome : db.account.isSome = true := by
      rcases guard.traded with hs | hs
      · exact guard.opened hs
      · obtain ⟨p, hp, -⟩ := sold_from_stored guard hs
        exact h (List.ne_nil_of_mem (Keyed.find_some Position.key hp).1)
    rw [commitFill_eq]
    show (postFill cfg db s _).account.isSome = true
    unfold postFill
    split
    · exact hsome
    · exact posted_created _ _ _ _ hsome

/-- Other settings change the cash only when there is no account yet, and
then nothing is deployed. -/
theorem buyingCash_settings {db : Db} (h : AccountFirst db) {cfg cfg' : Settings}
    (h0 : 0 ≤ buyingCash cfg db) (hstart : 0 ≤ cfg'.startingBankrollUsd) :
    0 ≤ buyingCash cfg' db := by
  unfold buyingCash accountOf at *
  cases ha : db.account with
  | some a => rw [ha] at h0; exact h0
  | none =>
    have hnil : db.positions = [] := by
      by_contra hne
      have := h hne
      rw [ha] at this
      cases this
    unfold globalExposure
    rw [hnil]
    show 0 ≤ cfg'.startingBankrollUsd + 0 - 0 - 0
    linarith

/-! ## The condition, and the runs that meet it -/

/-- The SELL committed by the step, if it is one, brings in its fee or finds
the rest in the cash. -/
def SellCovered (s : Sys) (e : Event) (t : Sys) : Prop :=
  ∀ b f fill snapshot fee marketFee, FillStep s b f fill snapshot fee marketFee e t →
    f.signal.side = .sell →
    fee ≤ fill.filledSize * fill.fillPrice + availableCash s.cfg s.db

theorem view_buyingCash {s : Sys} (ok : SysOk s) :
    buyingCash s.cfg s.view = buyingCash s.cfg s.db := by
  unfold buyingCash Sys.view
  rw [view_account ok.created]
  rfl

/-- The cash after a SELL; it is negative exactly when the fee is not covered. -/
theorem sell_cash {s t : Sys} (ok : SysOk s) (hset : SettledOk s)
    {b : Batch} {f : Flight} {fill : Fill} {snapshot : BookSnapshot} {fee : ℚ}
    {marketFee : MarketFee} {e : Event} (h : FillStep s b f fill snapshot fee marketFee e t)
    (hs : f.signal.side = .sell) :
    availableCash t.cfg t.db = availableCash s.cfg s.db +
      (fill.filledSize * fill.fillPrice - fee) := by
  have hrows := h.rows hset
  obtain ⟨-, -, guard, rfl⟩ := h
  rw [← buyingCash_eq hrows, ← buyingCash_eq hset.rows, ← view_buyingCash ok]
  have hne : ¬ f.signal.side = .buy := by rw [hs]; decide
  have := fill_buyingCash guard (positionFor_nonneg hset.quantity f.signal)
    f.now s.clock snapshot marketFee
  rw [if_pos hs, if_neg hne, sub_zero] at this
  exact this

theorem cash_step {pw : Py.DecPow} {tx : Py.Text} {s t : Sys} {e : Event}
    (ok : SysOk s) (hset : SettledOk s) (hc : 0 ≤ buyingCash s.cfg s.db) (h : Step pw tx s e t)
    (hsell : SellCovered s e t) :
    0 ≤ buyingCash s.cfg t.db := by
  cases h.kind ok with
  | filled b f fill snapshot fee marketFee hf =>
    rcases hf.guard.traded with hs | hs
    · -- a BUY was checked against this cash
      obtain ⟨-, -, hbuy⟩ := hf.guard.buy hs
      have hq := positionFor_nonneg hset.quantity f.signal
      have hcash := fill_buyingCash hf.guard hq f.now s.clock snapshot marketFee
      have hne : ¬ f.signal.side = .sell := by rw [hs]; decide
      rw [if_neg hne, if_pos hs] at hcash
      rw [hf.after]
      show 0 ≤ buyingCash s.cfg (commitFill _ _ _ _ _ _ _ _ _)
      rw [hcash]
      unfold buyingCash
      linarith
    · have hcov := hsell b f fill snapshot fee marketFee hf hs
      have hafter := sell_cash ok hset hf hs
      rw [← buyingCash_eq (hf.rows hset), ← buyingCash_eq hset.rows, hf.after] at hafter
      rw [← buyingCash_eq hset.rows] at hcov
      rw [hf.after]
      change buyingCash s.cfg _ = _ at hafter
      rw [hafter]
      linarith
  | settled startedAt rows event query after =>
    subst after
    have hn := (query.map _).nodup_iff.mpr (settleRows_keys ok.tables.positionKeys)
    exact hc.trans (settle_cash_le s.cfg startedAt rows s.db ok.tables hn
      fun row hr => query.mem_iff.mp hr)
  | swept limit amount event limit_pos amount_pos le_pile le_free after =>
    subst after
    have hfree : amount ≤ buyingCash s.cfg s.view := by
      unfold buyingCash
      have hx : globalExposure s.view = openPositionCost s.view := hset.rows.exposure
      rw [hx]
      exact le_free
    have hbal := swept_balance s.cfg (withAccount s.cfg s.view) (accountOf s.cfg s.view) limit amount
    unfold buyingCash at hfree
    show 0 ≤ (accountOf s.cfg (postWithdrawal _ _ _ _)).balance - globalExposure s.view
    rw [hbal]
    linarith
  | other event positions fills money =>
    have hexp : globalExposure t.db = globalExposure s.db := by
      unfold globalExposure; rw [positions]
    unfold buyingCash at hc ⊢
    rw [hexp, money.balance]
    exact hc

/-! ## The theorem -/

def CoveredStep (pw : Py.DecPow) (tx : Py.Text) (s : Sys) (e : Event) (t : Sys) : Prop :=
  Step pw tx s e t ∧ SellCovered s e t

/-- Available cash is not negative. -/
def Solvent (s : Sys) : Prop := 0 ≤ availableCash s.cfg s.db

instance (s : Sys) : Decidable (Solvent s) := inferInstanceAs (Decidable (0 ≤ _))

/-- What the induction over the run carries. -/
structure CashOk (s : Sys) : Prop where
  ok : SysOk s
  settled : SettledOk s
  first : AccountFirst s.db
  cash : 0 ≤ buyingCash s.cfg s.db

theorem cashOk_init (cfg : Settings) (t0 : Time) (hstart : 0 ≤ cfg.startingBankrollUsd) :
    CashOk (Sys.init cfg t0) := by
  refine ⟨sysOk_init cfg t0, settledOk_init cfg t0, fun hne => absurd rfl hne, ?_⟩
  show 0 ≤ cfg.startingBankrollUsd + 0 - 0 - 0
  linarith

theorem CashOk.step {pw : Py.DecPow} {tx : Py.Text} {s t : Sys} {e : Event} (h : CashOk s)
    (hs : CoveredStep pw tx s e t) (hstart : 0 ≤ t.cfg.startingBankrollUsd) : CashOk t := by
  obtain ⟨ok, hset, hfirst, hc⟩ := h
  obtain ⟨hstep, hsell⟩ := hs
  have hfirst' :=
    ((hstep.effects ok).inv (fun _ _ _ hi he => AccountFirst.effect hi he) ok.tables hfirst).2
  have hc' := cash_step ok hset hc hstep hsell
  exact ⟨hstep.ok ok, hset.step ok hstep, hfirst', buyingCash_settings hfirst' hc' hstart⟩

/-- Available cash is never negative in a run if and only if every SELL of
the run covers its fee. -/
theorem cash_nonneg_iff_covered (pw : Py.DecPow) (tx : Py.Text) (cfg : Settings) (t0 : Time)
    (tr : List (Event × Sys)) (s : Sys) (h : SysRun pw tx cfg t0 tr s)
    (hstart : 0 ≤ cfg.startingBankrollUsd) (hcfg : ∀ x ∈ tr, 0 ≤ x.2.cfg.startingBankrollUsd) :
    (∀ x ∈ tr, Solvent x.2) ↔ Runs.Run (CoveredStep pw tx) (Sys.init cfg t0) tr s := by
  constructor
  · intro hcash
    refine (h.restrict Solvent hcash).mono (fun s => SysOk s ∧ SettledOk s)
      ?_ ?_ ⟨sysOk_init cfg t0, settledOk_init cfg t0⟩
    · rintro s e t ⟨ok, hset⟩ ⟨hstep, -⟩
      exact ⟨hstep.ok ok, hset.step ok hstep⟩
    · rintro s e t ⟨ok, hset⟩ ⟨hstep, hpos⟩
      refine ⟨hstep, fun b f fill snapshot fee marketFee hf hs => ?_⟩
      have hafter := sell_cash ok hset hf hs
      unfold Solvent at hpos
      linarith
  · intro hcov x hx
    have hinv : CashOk x.2 := by
      refine (hcov.restrict (fun s => 0 ≤ s.cfg.startingBankrollUsd) hcfg).inv_trace CashOk ?_
        (cashOk_init cfg t0 hstart) x hx
      rintro s e t hi ⟨hs, hcfg'⟩
      exact hi.step hs hcfg'
    unfold Solvent
    rw [← buyingCash_eq hinv.settled.rows]
    exact hinv.cash

/-- The same shares sold under an ordinary curve. -/
def feeWithinProceeds : List Command :=
  enrol ++ [.ingestTrade (sampleTrade 1 "a" 1 .buy 0), .ingestTrade (sampleTrade 2 "b" 1 .sell 0)] ++
    startCycle ++ [.tick 30] ++ fillNext "0.5" noFee ++ fillNext "0.5" (feeRate "0.05") ++ endCycle

theorem cash_nonneg_iff_covered_feeWithinProceeds :
    Runs.Run (CoveredStep Py.natPow Py.Text.plain) (Sys.init liveSettings 0)
      ((history liveSettings feeWithinProceeds).getD []) (outcome liveSettings feeWithinProceeds) :=
  (cash_nonneg_iff_covered _ _ _ _ _ _ (history_run (by decide +kernel)) (by decide +kernel)
    (by decide +kernel)).mp (by decide +kernel)

/-- Shares bought for ten dollars and sold for ten dollars under a curve that asks 250 for it. -/
def feeAboveProceeds : List Command :=
  enrol ++ [.ingestTrade (sampleTrade 1 "a" 1 .buy 0), .ingestTrade (sampleTrade 2 "b" 1 .sell 0)] ++
    startCycle ++ [.tick 30] ++ fillNext "0.5" noFee ++ fillNext "0.5" (feeRate "50")

theorem cash_goes_negative :
    ¬ ∀ (pw : Py.DecPow) (tx : Py.Text) (cfg : Settings) (t0 : Time)
      (tr : List (Event × Sys)) (s : Sys),
      SysRun pw tx cfg t0 tr s → 0 ≤ cfg.startingBankrollUsd →
      (∀ x ∈ tr, 0 ≤ x.2.cfg.startingBankrollUsd) →
      Solvent s := by
  intro h
  have hrun : SysRun Py.natPow Py.Text.plain liveSettings 0 _
      (outcome liveSettings feeAboveProceeds) :=
    history_run (by decide +kernel)
  have hneg : availableCash (outcome liveSettings feeAboveProceeds).cfg
      (outcome liveSettings feeAboveProceeds).db = -50 := by decide +kernel
  have := h _ _ _ _ _ _ hrun (by decide +kernel) (by decide +kernel)
  unfold Solvent at this
  rw [hneg] at this
  exact absurd this (by norm_num)

end Polycopy
