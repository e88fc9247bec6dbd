import Polycopy.Bankroll
import Polycopy.Py.Json

/-!
# Writers of wallet state and of the bankroll's limits

The API's `add_wallet`, `transition_wallet` and `update_bankroll_settings`, and
the scorer's `_apply_verdict`.  Each takes the database its transaction reads and
returns the one it commits.
-/

namespace Polycopy

open Py

/-- `HTTPException`, or an exception that escapes the handler. -/
inductive HttpError
  | status (code : Nat) (detail : String)
  | raised (e : Exc)
  deriving DecidableEq, Repr

def ApprovalState.text : ApprovalState → String
  | .discovered => "discovered"
  | .pendingReview => "pending_review"
  | .approved => "approved"
  | .rejected => "rejected"
  | .disabled => "disabled"

def TransitionAction.text : TransitionAction → String
  | .approve => "approve"
  | .reject => "reject"
  | .disable => "disable"
  | .reenable => "reenable"

/-- `_ALLOWED_TRANSITIONS`: the required state and the target. -/
def allowedTransitions : TransitionAction → ApprovalState × ApprovalState
  | .approve => (.pendingReview, .approved)
  | .reject => (.pendingReview, .rejected)
  | .disable => (.approved, .disabled)
  | .reenable => (.disabled, .approved)

def addWallet (tx : Text) (address : String) (label : Option String)
    (db : Db) : Except HttpError Db :=
  match db.wallets.find? fun w => tx.lower w.address = tx.lower address with
  | some existing => .error (.status 409
      ("wallet " ++ tx.lower address ++ " is already tracked (state: " ++
        existing.approvalState.text ++ ")"))
  | none =>
    let w : Wallet := ⟨Keyed.fresh Wallet.id db.wallets, tx.lower address, .discovered, none⟩
    .ok ({ db with wallets := db.wallets ++ [w] }.log "human:api"
      (.walletAdded (tx.lower address) label))

def QueueState.ofApproval : ApprovalState → QueueState
  | .approved => .approved
  | .rejected => .rejected
  | .disabled => .disabled
  | _ => .pending

def ApprovalQueueEntry.isPendingOf (walletId : Nat) (e : ApprovalQueueEntry) : Bool :=
  e.walletId = walletId && e.state = .pending

/-- `.scalar_one_or_none()` on the wallet's pending entries, then the decision written to it. -/
def decideEntry (walletId : Nat) (state : QueueState) (reviewer : String) (now : Time)
    (queue : List ApprovalQueueEntry) : Except Exc (List ApprovalQueueEntry) :=
  if 1 < (queue.filter (ApprovalQueueEntry.isPendingOf walletId)).length then .error .other
  else .ok (queue.map fun e =>
    if e.isPendingOf walletId then { e with
      state := state, decidedAt := some now, reviewer := some reviewer }
    else e)

/-- The values of the conditional `UPDATE`. -/
def Wallet.moveTo (target : ApprovalState) (now : Time) (w : Wallet) : Wallet :=
  { w with
    approvalState := target
    approvedAt := if target = .approved then some now else w.approvedAt }

def transitionWallet (now : Time) (walletId : Nat) (action : TransitionAction) (db : Db) :
    Except HttpError Db :=
  let (requiredFrom, target) := allowedTransitions action
  match db.wallet walletId with
  | none => .error (.status 404 "wallet not found")
  | some w =>
    if w.approvalState ≠ requiredFrom then
      .error (.status 409 ("cannot " ++ action.text ++ " from state '" ++ w.approvalState.text ++
        "' (requires '" ++ requiredFrom.text ++ "')"))
    else match decideEntry walletId (.ofApproval target) "human:api" now db.approvalQueue with
      | .error e => .error (.raised e)
      | .ok queue => .ok ({ db with
          wallets := Keyed.update Wallet.id walletId (Wallet.moveTo target now) db.wallets
          approvalQueue :=
            queue }.log "human:api" (.walletTransition action w.address requiredFrom target))

/-- `_apply_verdict`: only the two automatic states are touched. -/
def applyVerdict (now : Time) (verdict : String) (walletId : Nat) (db : Db) : Except Exc Db :=
  match db.wallet walletId with
  | none => .ok db
  | some w =>
    if w.approvalState ≠ .discovered ∧ w.approvalState ≠ .pendingReview then .ok db
    else
      let pending := db.approvalQueue.filter (ApprovalQueueEntry.isPendingOf walletId)
      if verdict = "pending_review" then
        if 1 < pending.length then .error .other
        else
          let queue := if pending.isEmpty then
            db.approvalQueue ++ [(⟨walletId, .pending, none, none⟩ : ApprovalQueueEntry)]
            else db.approvalQueue
          .ok { db with
            wallets := Keyed.update Wallet.id walletId (Wallet.moveTo .pendingReview now) db.wallets
            approvalQueue := queue }
      else if w.approvalState = .pendingReview then
        .ok { db with
          wallets := Keyed.update Wallet.id walletId (Wallet.moveTo .discovered now) db.wallets
          approvalQueue := db.approvalQueue.map fun e => if e.isPendingOf walletId then
            { e with state := .withdrawn, decidedAt := some now, reviewer := some "scorer" } else e }
      else .ok db

/-- `update_bankroll_settings`; only the fields present in the body change. -/
def updateBankrollSettings (cfg : Settings)
    (profitLimitUsd stopLossFloorUsd : Option ℚ) (db : Db) : Db :=
  let (account, db) := getOrCreateBankrollAccount cfg db
  let account := { account with
    profitLimitUsd := profitLimitUsd.orElse fun _ => account.profitLimitUsd
    stopLossFloorUsd := stopLossFloorUsd.orElse fun _ => account.stopLossFloorUsd }
  let db := { db with account := some account }
  if profitLimitUsd.isSome ∨ stopLossFloorUsd.isSome then
    db.log "human:api" (.bankrollSettingsUpdated profitLimitUsd stopLossFloorUsd)
  else db

end Polycopy
