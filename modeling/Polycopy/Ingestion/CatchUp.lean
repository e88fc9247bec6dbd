import Polycopy.Ingestion.Service

/-!
# Catching up with an approved wallet

`ingest_approved_wallet` of `ingestion/catchup.py`, one step for each `await`:
a step takes what the await returns (or commits) and runs the code up to the
next one.

* idle → selecting → anchoring → awaitLatest → storeLatest, one query, request
  or commit each, `anchoring` only when no checkpoint names an anchor;
* storeLatest → checkpoint → turn, or idle when nothing is missing;
* turn → awaitPage → storePage → checkpoint → turn while the budget lasts.

An exception or a crash ends the cycle anywhere; the tables then hold what was
committed.
-/

namespace Polycopy

open Py

/-! ## The log of checkpoints -/

/-- The `wallet_catch_up` entries of a wallet, oldest first. -/
def Db.catchUps (db : Db) (walletId : Nat) : List CatchUpRecord :=
  db.decisionLog.filterMap fun entry => match entry.decision with
    | .walletCatchUp record => if record.walletId = walletId then some record else none
    | _ => none

/-- The `ORDER BY traded_at DESC, id DESC LIMIT 1` of the first deployment. -/
def Db.newestTrade (db : Db) (walletId : Nat) : Option String :=
  let later (best : Option Trade) (t : Trade) : Option Trade := match best with
    | none => some t
    | some b =>
      if b.tradedAt < t.tradedAt ∨ (b.tradedAt = t.tradedAt ∧ b.id < t.id) then some t else some b
  ((db.trades.filter fun t => t.walletId = walletId).foldl later none).map Trade.polymarketTradeId

/-! ## Reading a page -/

/-- `_keys`. -/
def keys (tx : Text) : List Json → Except Exc (List String)
  | [] => .ok []
  | row :: rows => match canonicalTradeId tx row with
    | .ok key => (keys tx rows).map (key :: ·)
    | .error e => if Unidentified e then keys tx rows else .error e

/-- The key of the first row that has one. -/
def firstKey (tx : Text) (rows : List Json) : Option String :=
  rows.findSome? fun row => (canonicalTradeId tx row).toOption

/-- `int(row.get("timestamp", 0))`. -/
def timestampOf : Json → Except Exc Int
  | .obj row => if Dict.has row "timestamp" then (Dict.get row "timestamp").toInt else .ok 0
  | _ => .error .attributeError

/-- `max(…, default=int(now))`. -/
def newestTimestamp (rows : List Json) (now : Time) : Except Exc Int := do
  return (← rows.mapM timestampOf).max?.getD (Json.trunc now)

/-- The timestamps that are numbers. -/
def times (rows : List Json) : Except Exc (List Int) := do
  ((← rows.mapM fun row => row.get "timestamp").filter Json.isNumber).mapM Json.toInt

/-! ## Local variables -/

/-- `if key:` for an optional text. -/
def isSet (key : Option String) : Bool := key.any (· ≠ "")

/-- `key in keys`; `None` is in none. -/
def among (key : Option String) (keys : List String) : Bool := key.any keys.contains

/-- The part of `state` that is read. -/
structure Window where
  anchorId : Option String
  endTimestamp : Option Int
  nextOffset : Nat
  windowOldest : Option Int
  deriving DecidableEq, Repr

def Window.ofPrior : Option CatchUpRecord → Window
  | none => ⟨none, none, 0, none⟩
  | some p => ⟨p.anchorId, p.endTimestamp, p.nextOffset, p.windowOldest⟩

structure WalletIngestionResult where
  inserted : Nat
  quarantined : Nat
  deriving DecidableEq, Repr

/-- What is known before the first request. -/
structure Baseline where
  size : Nat
  budget : Nat
  prior : Option CatchUpRecord
  anchor : Option String

structure Cycle extends Baseline where
  latest : List Json
  latestKeys : List String
  latestAnchor : Option String
  headAnchor : Option String
  incomplete : Bool
  window : Window
  result : WalletIngestionResult

/-- What follows a checkpoint. -/
inductive After
  | done
  | turn (left : Nat)
  | page (left offset : Nat) (endTimestamp : Int)

inductive CatchUpPc
  | idle (result : Option WalletIngestionResult)
  | selecting (size budget : Nat)
  | anchoring (size budget : Nat) (prior : Option CatchUpRecord)
  | awaitLatest (b : Baseline)
  | storeLatest (c : Cycle)
  | checkpoint (c : Cycle) (reason : String) (after : After)
  | turn (c : Cycle) (left : Nat)
  | awaitPage (c : Cycle) (left offset : Nat) (endTimestamp : Int)
  | storePage (c : Cycle) (left offset : Nat) (rows : List Json) (keys : List String)

/-- The parameters of `get_trades`. -/
structure TradesRequest where
  limit : Nat
  offset : Nat
  start : Option Int
  endTimestamp : Option Int

/-- The request a cycle is waiting for. -/
def CatchUpPc.request : CatchUpPc → Option TradesRequest
  | .awaitLatest b => some ⟨b.size, 0, none, none⟩
  | .awaitPage c _ offset endTimestamp =>
    some ⟨min c.size (10000 - offset), offset, some 1, some endTimestamp⟩
  | _ => none

/-! ## The code between two awaits -/

def pageSize (cfg : Settings) : Nat := min (max 1 cfg.ingestionBatchSize) 500

def pageBudget (cfg : Settings) : Nat := max 1 cfg.catchUpPagesPerCycle

/-- `bool(state.get("catch_up_incomplete"))`. -/
def Baseline.reopened (b : Baseline) : Bool := b.prior.any CatchUpRecord.catchUpIncomplete

/-- `state.get("head_anchor", anchor)`. -/
def Baseline.headAnchor (b : Baseline) : Option String :=
  match b.prior with
  | none => b.anchor
  | some p => p.headAnchor

/-- After the newest page has arrived. -/
def gotLatest (tx : Text) (b : Baseline) (latest : List Json) : Except Exc CatchUpPc := do
  let latestKeys ← keys tx latest
  return .storeLatest {
    toBaseline := b
    latest := latest
    latestKeys := latestKeys
    latestAnchor := (firstKey tx latest).or b.anchor
    headAnchor := b.headAnchor
    incomplete := b.reopened
    window := .ofPrior b.prior
    result := ⟨0, 0⟩ }

def Cycle.count (c : Cycle) (r : Ingested) : Cycle :=
  { c with result := ⟨c.result.inserted + r.inserted, c.result.quarantined + r.quarantined.length⟩ }

/-- `if not incomplete or head_anchor in latest_keys: head_anchor = latest_anchor`. -/
def Cycle.moveHead (c : Cycle) : Cycle :=
  if !c.incomplete || among c.headAnchor c.latestKeys then { c with headAnchor := c.latestAnchor }
  else c

/-- Only the head moves. -/
theorem Cycle.moveHead_eq (c : Cycle) :
    c.moveHead = { c with headAnchor := c.moveHead.headAnchor } := by
  unfold Cycle.moveHead
  split <;> rfl

/-- A window from `anchor` down from the newest timestamp on the latest page. -/
def Cycle.openWindow (c : Cycle) (anchor : Option String) (endTimestamp : Int) : Cycle :=
  { c with window := ⟨anchor, some endTimestamp, 0, none⟩, incomplete := true }

/-- After the newest page has been stored. -/
def storedLatest (c : Cycle) (now : Time) : Except Exc CatchUpPc :=
  let c := c.moveHead
  if !c.incomplete && isSet c.anchor && !among c.anchor c.latestKeys then do
    return .checkpoint (c.openWindow c.anchor (← newestTimestamp c.latest now))
      "recovery_in_progress" (.turn c.budget)
  else if c.incomplete && !among c.anchor c.latestKeys then
    .ok (.checkpoint c "recovery_in_progress" (.turn c.budget))
  else
    let c := { c with incomplete := false }
    if c.prior.isNone || c.latestAnchor ≠ c.anchor then
      .ok (.checkpoint c (if isSet c.anchor then "overlap_found" else "initial_baseline") .done)
    else .ok (.idle (some c.result))

/-- `checkpoint`. -/
def Cycle.record (c : Cycle) (wallet : Wallet) (reason : String) : CatchUpRecord where
  wallet := wallet.address
  walletId := wallet.id
  anchorId := if c.incomplete then c.window.anchorId else c.latestAnchor
  headAnchor := c.headAnchor
  endTimestamp := if c.incomplete then c.window.endTimestamp else none
  nextOffset := if c.incomplete then c.window.nextOffset else 0
  windowOldest := if c.incomplete then c.window.windowOldest else none
  catchUpIncomplete := c.incomplete
  terminationReason := reason

def resume (c : Cycle) : After → CatchUpPc
  | .done => .idle (some c.result)
  | .turn 0 => .idle (some c.result)
  | .turn left => .turn c left
  | .page left offset endTimestamp => .awaitPage c left offset endTimestamp

/-- Down from the oldest timestamp seen, which is inclusive, so the windows overlap. -/
def Cycle.roll (c : Cycle) (oldest : Int) : Cycle :=
  { c with window := { c.window with endTimestamp := some oldest, nextOffset := 0 } }

/-- `int(state["end_timestamp"])`. -/
def Cycle.endTimestamp (c : Cycle) : Except Exc Int :=
  match c.window.endTimestamp with
  | none => .error .typeError
  | some e => .ok e

/-- A turn of the loop, once the wallet is refreshed. -/
def takeTurn (c : Cycle) (left : Nat) (wallet : Option Wallet) : Except Exc CatchUpPc :=
  match wallet with
  | none => .error .other
  | some wallet =>
    if wallet.approvalState ≠ .approved then .ok (.checkpoint c "wallet_disabled" .done)
    else if 10000 ≤ c.window.nextOffset then
      match c.window.windowOldest with
      | none => .ok (.checkpoint c "window_stalled" .done)
      | some oldest => c.endTimestamp.map fun e =>
        if e ≤ oldest then .checkpoint c "window_stalled" .done
        else .checkpoint (c.roll oldest) "window_rolled" (.page left 0 oldest)
    else c.endTimestamp.map (.awaitPage c left c.window.nextOffset)

/-- After a page of the window has been stored. -/
def storedPage (c : Cycle) (left offset : Nat) (rows : List Json)
    (pageKeys : List String) (now : Time) :
    Except Exc CatchUpPc := do
  let times ← times rows
  let c := { c with window := { c.window with
    nextOffset := offset + rows.length
    windowOldest := times.min?.or c.window.windowOldest } }
  if among c.anchor pageKeys then
    if isSet c.headAnchor && !among c.headAnchor c.latestKeys then
      let endTimestamp ← newestTimestamp c.latest now
      return .checkpoint { c.openWindow c.headAnchor endTimestamp with headAnchor := c.latestAnchor }
        "next_window_pending" .done
    else return .checkpoint { c with incomplete := false } "overlap_found" .done
  else if rows.length < min c.size (10000 - offset) then
    return .checkpoint c "history_exhausted" .done
  else return .checkpoint c "budget_reached" (.turn (left - 1))

/-! ## Steps -/

/-- The tables as committed, where the cycle stands, and what committed calls of
`ingest_trade_rows` have been handed and have quarantined so far. -/
structure CatchUp where
  db : Db
  pc : CatchUpPc
  handed : List Json
  quarantined : List Quarantined

inductive CatchUpEvent
  | begin (cfg : Settings)
  | select
  | fetch (response : Except Exc (List Json))
  | store (env : PageEnv) (now : Time)
  | commit
  | refresh
  | crash

namespace CatchUp

/-- Go on, or leave by the exception. -/
def goto (s : CatchUp) (pc : Except Exc CatchUpPc) : CatchUp :=
  { s with pc := pc.toOption.getD (.idle none) }

/-- A call of `ingest_trade_rows` and what follows its commit. -/
def store (tx : Text) (env : PageEnv) (walletId : Nat) (s : CatchUp) (rows : List Json)
    (after : Ingested → Except Exc CatchUpPc) : CatchUp :=
  match ingestTradeRows tx env true walletId rows s.db with
  | .error e => s.goto (.error e)
  | .ok r => goto { s with
      db := r.db
      handed := s.handed ++ rows
      quarantined := s.quarantined ++ r.quarantined } (after r)

def next (tx : Text) (wallet : Wallet) (s : CatchUp) : CatchUpEvent → Option CatchUp
  | .begin cfg => match s.pc with
    | .idle _ => some { s with pc := .selecting (pageSize cfg) (pageBudget cfg) }
    | _ => none
  | .select => match s.pc with
    | .selecting size budget =>
      let prior := (s.db.catchUps wallet.id).getLast?
      let anchor := prior.bind CatchUpRecord.anchorId
      if isSet anchor then some { s with pc := .awaitLatest ⟨size, budget, prior, anchor⟩ }
      else some { s with pc := .anchoring size budget prior }
    | .anchoring size budget prior =>
      some { s with pc := .awaitLatest ⟨size, budget, prior, s.db.newestTrade wallet.id⟩ }
    | _ => none
  | .fetch response => match s.pc with
    | .awaitLatest b => some (s.goto (response.bind (gotLatest tx b)))
    | .awaitPage c left offset _ =>
      some (s.goto (response.bind fun rows => (keys tx rows).map (.storePage c left offset rows)))
    | _ => none
  | .store env now => match s.pc with
    | .storeLatest c =>
      some (store tx env wallet.id s c.latest fun r => storedLatest (c.count r) now)
    | .storePage c left offset rows pageKeys =>
      some (store tx env wallet.id s rows fun r =>
        storedPage (c.count r) left offset rows pageKeys now)
    | _ => none
  | .commit => match s.pc with
    | .checkpoint c reason after =>
      some { s with
        db := s.db.log "bot" (.walletCatchUp (c.record wallet reason)), pc := resume c after }
    | _ => none
  | .refresh => match s.pc with
    | .turn c left => some (s.goto (takeTurn c left (s.db.wallet wallet.id)))
    | _ => none
  | .crash => some (s.goto (.error .other))

end CatchUp

/-- The steps of `CatchUp.next`, by where the cycle stands and what the event brings. -/
inductive CatchUp.Moves (tx : Text) (wallet : Wallet) (s : CatchUp) : CatchUpEvent → CatchUp → Prop
  | begin (cfg : Settings) (result : Option WalletIngestionResult) (here : s.pc = .idle result) :
      s.Moves tx wallet (.begin cfg) { s with pc := .selecting (pageSize cfg) (pageBudget cfg) }
  | anchored (size budget : Nat)
      (set : isSet ((s.db.catchUps wallet.id).getLast?.bind CatchUpRecord.anchorId) = true)
      (here : s.pc = .selecting size budget) :
      s.Moves tx wallet .select
        { s with pc := .awaitLatest ⟨size, budget, (s.db.catchUps wallet.id).getLast?,
        (s.db.catchUps wallet.id).getLast?.bind CatchUpRecord.anchorId⟩ }
  | unanchored (size budget : Nat)
      (unset : ¬ isSet ((s.db.catchUps wallet.id).getLast?.bind CatchUpRecord.anchorId) = true)
      (here : s.pc = .selecting size budget) :
      s.Moves tx wallet .select
        { s with pc := .anchoring size budget (s.db.catchUps wallet.id).getLast? }
  | anchor (size budget : Nat) (prior : Option CatchUpRecord)
      (here : s.pc = .anchoring size budget prior) :
      s.Moves tx wallet .select
        { s with pc := .awaitLatest ⟨size, budget, prior, s.db.newestTrade wallet.id⟩ }
  | latest (b : Baseline) (response : Except Exc (List Json)) (here : s.pc = .awaitLatest b) :
      s.Moves tx wallet (.fetch response) (s.goto (response.bind (gotLatest tx b)))
  | page (c : Cycle) (left offset : Nat) (e : Int) (response : Except Exc (List Json))
      (here : s.pc = .awaitPage c left offset e) :
      s.Moves tx wallet (.fetch response)
        (s.goto (response.bind fun rows => (keys tx rows).map (.storePage c left offset rows)))
  | storeLatest (c : Cycle) (env : PageEnv) (now : Time) (here : s.pc = .storeLatest c) :
      s.Moves tx wallet (.store env now)
        (s.store tx env wallet.id c.latest fun r => storedLatest (c.count r) now)
  | storePage (c : Cycle) (left offset : Nat) (rows : List Json) (pageKeys : List String)
      (env : PageEnv) (now : Time)
      (here : s.pc = .storePage c left offset rows pageKeys) :
      s.Moves tx wallet (.store env now)
        (s.store tx env wallet.id rows fun r => storedPage (c.count r) left offset rows pageKeys now)
  | commit (c : Cycle) (reason : String) (after : After) (here : s.pc = .checkpoint c reason after) :
      s.Moves tx wallet .commit
        { s with
          db := s.db.log "bot" (.walletCatchUp (c.record wallet reason))
          pc := resume c after }
  | refresh (c : Cycle) (left : Nat) (here : s.pc = .turn c left) :
      s.Moves tx wallet .refresh (s.goto (takeTurn c left (s.db.wallet wallet.id)))
  | crash : s.Moves tx wallet .crash (s.goto (.error .other))

theorem CatchUp.moves_of_next {tx : Text} {wallet : Wallet} {s t : CatchUp} {e : CatchUpEvent}
    (h : s.next tx wallet e = some t) : s.Moves tx wallet e t := by
  cases e with
  | begin cfg =>
    simp only [CatchUp.next] at h
    split at h
    · next result here =>
      obtain rfl := Option.some.inj h
      exact .begin cfg result here
    · cases h
  | select =>
    simp only [CatchUp.next] at h
    split at h
    · next size budget here =>
      split at h
      · next set =>
        obtain rfl := Option.some.inj h
        exact .anchored size budget set here
      · next unset =>
        obtain rfl := Option.some.inj h
        exact .unanchored size budget unset here
    · next size budget prior here =>
      obtain rfl := Option.some.inj h
      exact .anchor size budget prior here
    · cases h
  | fetch response =>
    simp only [CatchUp.next] at h
    split at h
    · next b here =>
      obtain rfl := Option.some.inj h
      exact .latest b response here
    · next c left offset e here =>
      obtain rfl := Option.some.inj h
      exact .page c left offset e response here
    · cases h
  | store env now =>
    simp only [CatchUp.next] at h
    split at h
    · next c here =>
      obtain rfl := Option.some.inj h
      exact .storeLatest c env now here
    · next c left offset rows pageKeys here =>
      obtain rfl := Option.some.inj h
      exact .storePage c left offset rows pageKeys env now here
    · cases h
  | commit =>
    simp only [CatchUp.next] at h
    split at h
    · next c reason after here =>
      obtain rfl := Option.some.inj h
      exact .commit c reason after here
    · cases h
  | refresh =>
    simp only [CatchUp.next] at h
    split at h
    · next c left here =>
      obtain rfl := Option.some.inj h
      exact .refresh c left here
    · cases h
  | crash =>
    obtain rfl := Option.some.inj h
    exact .crash

/-- A commit of another process: it writes no checkpoint of the wallet and deletes no trade. -/
structure CatchUpElsewhere (walletId : Nat) (db db' : Db) : Prop where
  log : db'.catchUps walletId = db.catchUps walletId
  trades : ∀ key, db.hasTrade key = true → db'.hasTrade key = true

end Polycopy
