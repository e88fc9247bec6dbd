import Polycopy.Lib.Run
import Polycopy.Execution.Outcomes
import Polycopy.Api.Routes

/-!
# The bot, the API, ingestion and the settlement refresh on one database

The bot runs `run_execution_cycle` in one session; each of its steps ends at an
`await` of the network or at a commit, so any other process may commit between
two of them.  A commit of another process is one step (`Elsewhere`), a crash of
the bot is possible anywhere and restarts it with any settings.

* idle → settling → selecting → loop, one commit or query each;
* loop → awaitBook → awaitFee → loop for a signal that reaches the network;
* loop → sweeping → idle at the end of the batch.
-/

namespace Polycopy

open Py

/-! ## What the bot's session has not committed -/

/-- Uncommitted writes: deferral counts, and the account row if the session created it. -/
structure Session where
  deferrals : List Nat
  account : Option BankrollAccount

namespace Session

def empty : Session := ⟨[], none⟩

/-- The tables as the session's own queries see them; also what a commit makes of them. -/
def view (ss : Session) (db : Db) : Db :=
  { db with
    signals := ss.deferrals.foldr bumpDeferrals db.signals
    account := db.account.or ss.account }

/-- A deferral adds to the count only behind the kill switch. -/
def defer (cfg : Settings) (id : Nat) (ss : Session) : Session :=
  if cfg.orderKillSwitch then { ss with deferrals := id :: ss.deferrals } else ss

/-- The account row as the gates leave it. -/
def keep (db : Db) (ss : Session) : Session := { ss with account := db.account }

end Session

/-! ## States -/

/-- The local variables of `execute_signal` that live across its awaits. -/
structure Flight where
  signal : Signal
  now : Time
  plan : Plan

/-- The rest of `pending_ids`, and whether `stats["deferred"]` is positive. -/
structure Batch where
  todo : List Nat
  deferred : Bool

inductive Pc
  | idle
  | settling (startedAt : Time)
  | selecting
  | loop (b : Batch)
  | awaitBook (b : Batch) (f : Flight)
  | awaitFee (b : Batch) (f : Flight) (fill : Fill) (snapshot : BookSnapshot)
  | sweeping

/-- The call of `execute_signal` under way. -/
def Pc.flight : Pc → Option Flight
  | .awaitBook _ f => some f
  | .awaitFee _ f _ _ => some f
  | _ => none

structure Sys where
  db : Db
  clock : Time
  cfg : Settings
  session : Session
  pc : Pc

def Sys.init (cfg : Settings) (clock : Time) : Sys := ⟨Db.empty, clock, cfg, Session.empty, .idle⟩

def Sys.view (s : Sys) : Db := s.session.view s.db

/-- A commit by the bot. -/
def Sys.commit (s : Sys) (db : Db) (pc : Pc) : Sys :=
  { s with db := db, session := Session.empty, pc := pc }

inductive Event
  | tick | ingestTrade | ingestMarket
  | resolve (marketId : Nat)
  | backfill | throttle | addWallet
  | transition (walletId : Nat) (action : TransitionAction)
  | verdict | settings | overview
  | detect | settle | select
  | begin (signalId : Nat)
  | book | fee | raised | finish | sweep
  | crash
  deriving DecidableEq

/-! ## Commits of the other processes -/

/-- What an update of a market row keeps. -/
def KeepsMarket (f : Market → Market) : Prop :=
  ∀ m, (f m).id = m.id ∧ (f m).conditionId = m.conditionId

def updateMarket (id : Nat) (f : Market → Market) (db : Db) : Db :=
  { db with markets := Keyed.update Market.id id f db.markets }

inductive Elsewhere (tx : Text) (cfg : Settings) (now : Time) : Db → Event → Db → Prop
  | ingestTrade (db : Db) (t : Trade)
      (id : ∀ t' ∈ db.trades, t'.id ≠ t.id)
      (key : ∀ t' ∈ db.trades, t'.polymarketTradeId ≠ t.polymarketTradeId)
      (seen : t.ingestedAt ≤ now) :
      Elsewhere tx cfg now db .ingestTrade { db with trades := db.trades ++ [t] }
  | ingestMarket (db : Db) (m : Market)
      (id : ∀ m' ∈ db.markets, m'.id ≠ m.id)
      (key : ∀ m' ∈ db.markets, m'.conditionId ≠ m.conditionId) :
      Elsewhere tx cfg now db .ingestMarket { db with markets := db.markets ++ [m] }
  -- the settlement row and `closed` are one commit
  | resolve (db : Db) (id : Nat) (winningOutcome : String) (f : Market → Market)
      (keeps : KeepsMarket f) (closes : ∀ m, (f m).closed = true)
      (exists_market : (db.market id).isSome) (unsettled : db.settlement id = none) :
      Elsewhere tx cfg now db (.resolve id)
        { updateMarket id f db with settlements := db.settlements ++ [⟨id, winningOutcome⟩] }
  -- only a market without a settlement is looked up again, so a settled one is never reopened
  | backfill (db : Db) (id : Nat) (f : Market → Market) (keeps : KeepsMarket f)
      (unsettled : db.settlement id = none) :
      Elsewhere tx cfg now db .backfill (updateMarket id f db)
  | throttle (db : Db) (t : Option Time) : Elsewhere tx cfg now db .throttle
      { db with gammaThrottle := t }
  | addWallet (db db' : Db) (address : String) (label : Option String)
      (h : addWallet tx address label db = .ok db') : Elsewhere tx cfg now db .addWallet db'
  | transition (db db' : Db) (walletId : Nat) (action : TransitionAction)
      (h : transitionWallet now walletId action db = .ok db') :
      Elsewhere tx cfg now db (.transition walletId action) db'
  | verdict (db db' : Db) (verdict : String) (walletId : Nat)
      (h : applyVerdict now verdict walletId db = .ok db') : Elsewhere tx cfg now db .verdict db'
  | settings (db : Db) (profitLimitUsd stopLossFloorUsd : Option ℚ) :
      Elsewhere tx cfg now db .settings
        (updateBankrollSettings cfg profitLimitUsd stopLossFloorUsd db)
  -- a read endpoint that had to create the account
  | overview (db : Db) : Elsewhere tx cfg now db .overview (withAccount cfg db)

/-- The bot's uncommitted insert of the account row holds off any other. -/
def Sys.accountFree (s : Sys) : Prop := s.db.account = none → s.session.account = none

def Event.touchesAccount (e : Event) : Bool := e = .settings || e = .overview

/-! ## Steps of the bot -/

/-- The head of the batch as `session.get` finds it, still pending and not
inside the review delay. -/
structure Ready (s : Sys) (id : Nat) (sig : Signal) : Prop where
  row : s.view.signal id = some sig
  pending : sig.status = .pending
  due : eligibleAt s.cfg sig ≤ s.clock ∨ s.cfg.orderKillSwitch = true

inductive Bot (pw : DecPow) (s : Sys) : Event → Sys → Prop
  | detect (rows : List Trade) (pc : s.pc = .idle) (paper : paperOnly s.cfg = true)
      (query : QueryRows Trade.ingestedAt s.cfg.signalDetectionBatchSize (detectable s.db) rows) :
      Bot pw s .detect (s.commit (detectSignals s.db rows) (.settling s.clock))
  | settle (startedAt : Time) (rows : List (Position × Settlement)) (pc : s.pc = .settling startedAt)
      (query : rows.Perm (settleRows s.db)) :
      Bot pw s .settle (s.commit (settlePaperPositions s.cfg startedAt s.db rows) .selecting)
  | select (rows : List Signal) (pc : s.pc = .selecting)
      (query : QueryRows Signal.t1DetectedAt s.cfg.executionBatchSize
        (s.db.signals.filter fun sig => sig.status = .pending) rows) :
      Bot pw s .select { s with pc := .loop ⟨rows.map Signal.id, false⟩ }
  -- settled by a concurrent path: `continue`
  | passOver (id : Nat) (rest : List Nat) (deferred : Bool)
      (pc : s.pc = .loop ⟨id :: rest, deferred⟩)
      (gone : ∀ sig, s.view.signal id = some sig → sig.status ≠ .pending) :
      Bot pw s (.begin id) { s with pc := .loop ⟨rest, deferred⟩ }
  -- inside the review delay: `break`
  | stop (id : Nat) (rest : List Nat) (deferred : Bool) (sig : Signal)
      (pc : s.pc = .loop ⟨id :: rest, deferred⟩) (row : s.view.signal id = some sig)
      (early : s.clock < eligibleAt s.cfg sig) (live : s.cfg.orderKillSwitch = false) :
      Bot pw s (.begin id) { s with pc := .loop ⟨[], deferred⟩ }
  | skip (id : Nat) (rest : List Nat) (deferred : Bool) (sig : Signal)
      (reason : MissReason) (db : Db)
      (pc : s.pc = .loop ⟨id :: rest, deferred⟩) (ready : Ready s id sig)
      (gates : executeGates s.cfg s.clock s.view sig = (db, .skip reason)) :
      Bot pw s (.begin id)
        (s.commit (recordSkip s.cfg db sig reason s.clock none) (.loop ⟨rest, deferred⟩))
  | defer (id : Nat) (rest : List Nat) (deferred : Bool) (sig : Signal) (db : Db)
      (pc : s.pc = .loop ⟨id :: rest, deferred⟩) (ready : Ready s id sig)
      (gates : executeGates s.cfg s.clock s.view sig = (db, .deferred)) :
      Bot pw s (.begin id)
        { s with session := s.session.defer s.cfg sig.id, pc := .loop ⟨rest, true⟩ }
  | request (id : Nat) (rest : List Nat) (deferred : Bool) (sig : Signal) (plan : Plan) (db : Db)
      (pc : s.pc = .loop ⟨id :: rest, deferred⟩) (ready : Ready s id sig)
      (gates : executeGates s.cfg s.clock s.view sig = (db, .request plan)) :
      Bot pw s (.begin id)
        { s with
          session := s.session.keep db
          pc := .awaitBook ⟨rest, deferred⟩ ⟨sig, s.clock, plan⟩ }
  | bookSkip (b : Batch) (f : Flight) (book : Json) (reason : MissReason) (evidence : BookEvidence)
      (pc : s.pc = .awaitBook b f)
      (response : afterBook s.cfg f.signal f.plan book = .ok (.skip reason evidence)) :
      Bot pw s .book
        (s.commit (recordSkip s.cfg s.view f.signal reason f.now (some evidence)) (.loop b))
  | bookFill (b : Batch) (f : Flight) (book : Json) (fill : Fill) (snapshot : BookSnapshot)
      (pc : s.pc = .awaitBook b f)
      (response : afterBook s.cfg f.signal f.plan book = .ok (.fill fill snapshot)) :
      Bot pw s .book { s with pc := .awaitFee b f fill snapshot }
  | feeSkip (b : Batch) (f : Flight) (fill : Fill) (snapshot : BookSnapshot) (feeInfo : Json)
      (reason : MissReason) (pc : s.pc = .awaitFee b f fill snapshot)
      (response : afterFee pw s.cfg f.plan fill feeInfo = .ok (.skip reason)) :
      Bot pw s .fee (s.commit
        (recordSkip s.cfg s.view f.signal reason f.now
          (some (bookEvidence fill snapshot))) (.loop b))
  | feeFill (b : Batch) (f : Flight) (fill : Fill) (snapshot : BookSnapshot) (feeInfo : Json)
      (fee : ℚ) (marketFee : MarketFee) (pc : s.pc = .awaitFee b f fill snapshot)
      (response : afterFee pw s.cfg f.plan fill feeInfo = .ok (.fill fee marketFee)) :
      Bot pw s .fee (s.commit
        (commitFill s.cfg s.view f.signal f.now s.clock fill snapshot fee marketFee) (.loop b))
  -- any exception inside the call: rollback, next signal
  | raisedGates (id : Nat) (rest : List Nat) (deferred : Bool)
      (pc : s.pc = .loop ⟨id :: rest, deferred⟩) :
      Bot pw s .raised (s.commit s.db (.loop ⟨rest, deferred⟩))
  | raisedBook (b : Batch) (f : Flight) (pc : s.pc = .awaitBook b f) :
      Bot pw s .raised (s.commit s.db (.loop b))
  | raisedFee (b : Batch) (f : Flight) (fill : Fill) (snapshot : BookSnapshot)
      (pc : s.pc = .awaitFee b f fill snapshot) : Bot pw s .raised (s.commit s.db (.loop b))
  | finishDeferred (pc : s.pc = .loop ⟨[], true⟩) : Bot pw s .finish (s.commit s.view .sweeping)
  | finish (pc : s.pc = .loop ⟨[], false⟩) : Bot pw s .finish { s with pc := .sweeping }
  -- `swept > 0` commits; otherwise the session is closed without one
  | sweep (pc : s.pc = .sweeping) :
      Bot pw s .sweep (s.commit
        (if 0 < (sweepProfitIfDue s.cfg s.view).2 then
          (sweepProfitIfDue s.cfg s.view).1 else s.db) .idle)

/-! ## Steps of the system -/

inductive Step (pw : DecPow) (tx : Text) (s : Sys) : Event → Sys → Prop
  | tick (d : Time) (h : 0 ≤ d) : Step pw tx s .tick { s with clock := s.clock + d }
  | elsewhere (e : Event) (db : Db) (h : Elsewhere tx s.cfg s.clock s.db e db)
      (lock : e.touchesAccount = true → s.accountFree) : Step pw tx s e { s with db := db }
  | bot (e : Event) (t : Sys) (h : Bot pw s e t) : Step pw tx s e t
  -- uncommitted work is lost; the process comes back with its settings as they are then
  | crash (cfg : Settings) :
      Step pw tx s .crash { s with cfg := cfg, session := Session.empty, pc := .idle }

/-- A run of the whole system from the empty database. -/
def SysRun (pw : DecPow) (tx : Text) (cfg : Settings) (t0 : Time)
    (tr : List (Event × Sys)) (s : Sys) : Prop :=
  Runs.Run (Step pw tx) (Sys.init cfg t0) tr s

end Polycopy
