import Mathlib.Data.List.Sort
import Mathlib.Logic.Function.Iterate
import Polycopy.Lib.Keyed
import Polycopy.Lib.Run
import Polycopy.Lib.Savepoints

/-!
# The session observer

`SessionObserver` hangs on the events of one session.  `before_flush` admits the
outer transaction under a token, `after_flush` detaches a fact for each `Trade`
inserted, with the `SAVEPOINT` it belongs to; `after_commit` hands the facts of a
released `SAVEPOINT` to its parent, `after_soft_rollback` drops those of one rolled
back, and `before_commit` of the outer transaction inserts the witness.

The session is modelled by the events it emits:

* `commit()` releases the open `SAVEPOINT`s, then emits `before_commit`, sends
  `COMMIT` and emits `after_commit` and `after_transaction_end`;
* `rollback()` rolls back the open `SAVEPOINT`s, then the outer transaction, each with
  `after_transaction_end` and `after_soft_rollback`;
* the handle of a `SAVEPOINT` that is not the innermost releases the inner ones
  first, or closes them: a close emits `after_transaction_end` and nothing else.
-/

namespace Polycopy

open Savepoints Runs

/-- What `detach_facts` reads back of one row of `trades`. -/
structure TradeFact where
  sourceRecordId : Nat
  sourceEventId : String
  wallet : String
  asset : String
  conditionId : String
  side : String
  originalSize : String
  tradedAtUtc : Option String
  ingestedUtc : String
  deriving DecidableEq, Repr

/-- A `SessionTransaction`, by its identity. -/
structure SessionTransaction where
  id : Nat
  parent : Option Nat
  deriving DecidableEq, Repr

inductive FenceEvent
  | attempt (transactionId : Nat)
  | rolledBack (transactionId : Nat)
  deriving DecidableEq, Repr

/-- A row of `comparison_transaction_witness`. -/
structure Witness where
  transactionId : Nat
  trades : List TradeFact
  deriving DecidableEq, Repr

/-- The two dictionaries `trades` and `fact_transactions` have the same keys throughout: one list
holds both. -/
structure SessionObserver where
  token : Option Nat
  trades : List (TradeFact × Option Nat)
  candidates : List TradeFact
  commitStarted : Bool
  endedToken : Option Nat
  endedUnknown : Bool
  deriving DecidableEq, Repr

def factKey (fact : TradeFact × Option Nat) : Nat := fact.1.sourceRecordId

/-- A session, its observer and the fence. -/
structure Observed where
  /-- The outer transaction, if one has begun. -/
  root : Option Nat
  tx : Tx TradeFact
  /-- False after a flush or a `COMMIT` that raised, until a rollback. -/
  usable : Bool
  /-- The identity of the next `SessionTransaction`. -/
  identity : Nat
  observer : SessionObserver
  journal : List FenceEvent
  /-- What `uuid4` returns next. -/
  uuid : Nat
  /-- Every witness inserted so far. -/
  witnesses : List Witness
  /-- The length of the journal when the outer transaction began. -/
  begun : Nat
  /-- Whether `COMMIT` was sent for the outer transaction. -/
  attempted : Bool
  /-- The rows lost with a `SAVEPOINT` that was open while an outer one was rolled back. -/
  orphans : List (TradeFact × Option Nat)
  deriving DecidableEq, Repr

/-! ## The callbacks -/

/-- `_clear`. -/
def SessionObserver.clear (o : SessionObserver) : SessionObserver :=
  { o with token := none, trades := [], candidates := [], commitStarted := false }

def Observed.admit (s : Observed) : Observed :=
  match s.observer.token with
  | some _ => s
  | none =>
    { s with
      observer := { s.observer with token := some s.uuid }
      uuid := s.uuid + 1
      journal := s.journal ++ [.attempt s.uuid] }

def Observed.beforeFlush (s : Observed) (new : List TradeFact) : Observed :=
  if new = [] then s
  else { s.admit with observer := { s.admit.observer with
    candidates := s.admit.observer.candidates ++ new } }

def SessionObserver.afterFlush (o : SessionObserver)
    (nested : Option SessionTransaction) : SessionObserver :=
  { o with
    trades := o.candidates.foldl (fun trades trade =>
      Keyed.put factKey (trade, nested.map SessionTransaction.id) trades) o.trades
    candidates := [] }

def SessionObserver.beforeCommit (o : SessionObserver)
    (nested : Option SessionTransaction) : Option Witness :=
  if nested.isSome then none
  else o.token.map fun token =>
    ⟨token, (o.trades.map Prod.fst).insertionSort fun a b => a.sourceRecordId ≤ b.sourceRecordId⟩

def SessionObserver.afterCommit (o : SessionObserver)
    (nested : Option SessionTransaction) : SessionObserver :=
  match nested with
  | none => o
  | some nested =>
    { o with
      trades := o.trades.map fun p => if p.2 = some nested.id then (p.1, nested.parent) else p }

def SessionObserver.afterTransactionEnd (o : SessionObserver)
    (transaction : SessionTransaction) : SessionObserver :=
  if transaction.parent = none then
    { o with endedToken := o.token, endedUnknown := o.commitStarted }.clear
  else
    o

def Observed.afterSoftRollback (s : Observed) (previous : SessionTransaction) : Observed :=
  if previous.parent ≠ none then
    { s with observer := { s.observer with
      trades := s.observer.trades.filter fun p => p.2 ≠ some previous.id
      candidates := [] } }
  else
    let journal := match s.observer.token.or s.observer.endedToken with
      | some token =>
        if s.observer.commitStarted ∨ s.observer.endedUnknown then s.journal
        else s.journal ++ [.rolledBack token]
      | none => s.journal
    { s with journal, observer := { s.observer with
      endedToken := none, endedUnknown := false }.clear }

/-! ## The session -/

/-- `get_nested_transaction`. -/
def Observed.nested (s : Observed) : Option SessionTransaction :=
  match s.tx.stack with
  | [] => none
  | n :: rest => some ⟨n, rest.head?.or s.root⟩

def Observed.autobegin (s : Observed) : Observed :=
  match s.root with
  | some _ => s
  | none =>
    { s with
      root := some s.identity
      tx := Tx.start
      usable := true
      identity := s.identity + 1
      begun := s.journal.length
      attempted := false }

/-- The ids of the rows inserted are new to the rows there are; one that a rollback
has freed may return. -/
def Observed.Inserts (s : Observed) (new : List TradeFact) : Prop :=
  (new.map TradeFact.sourceRecordId).Nodup ∧ ∀ i ∈ s.tx.live,
    i.row.sourceRecordId ∉ new.map TradeFact.sourceRecordId

instance (s : Observed) (new : List TradeFact) : Decidable (s.Inserts new) := by
  unfold Observed.Inserts; infer_instance

def Observed.flush (s : Observed) (new : List TradeFact) : Observed :=
  let s := s.beforeFlush new
  { s with
    tx := s.tx.insert new
    orphans := s.orphans.filter fun p => factKey p ∉ new.map TradeFact.sourceRecordId
    observer := s.observer.afterFlush s.nested }

/-- A flush runs in a transaction of its own below the innermost one, and ends
that one when it raises. -/
def Observed.flushRaises (s : Observed) (new : List TradeFact) : Observed :=
  let s := s.beforeFlush new
  let previous : SessionTransaction := ⟨s.identity, s.tx.stack.head?.or s.root⟩
  { { s with observer := s.observer.afterTransactionEnd previous }.afterSoftRollback previous with
    identity := s.identity + 1, usable := false }

def Observed.beginNested (s : Observed) : Observed :=
  { s with tx := s.tx.begin s.identity, identity := s.identity + 1 }

/-- The `before_commit` of a `SAVEPOINT` finds itself nested and does nothing. -/
def Observed.releaseTop (s : Observed) : Observed :=
  match s.nested with
  | none => s
  | some nested =>
    { s with
      tx := s.tx.release
      observer := (s.observer.afterCommit (some nested)).afterTransactionEnd nested }

def Observed.rollbackTop (s : Observed) : Observed :=
  match s.nested with
  | none => s
  | some nested =>
    { s with tx := s.tx.close, observer := s.observer.afterTransactionEnd nested }.afterSoftRollback
      nested

def Observed.closeTop (s : Observed) : Observed :=
  match s.nested with
  | none => s
  | some nested =>
    { s with
      tx := s.tx.close
      orphans := (s.tx.tagged.filter fun p => p.2 = some nested.id) ++ s.orphans
      observer := s.observer.afterTransactionEnd nested }

/-- How many open `SAVEPOINT`s lie within one. -/
def Observed.within (s : Observed) (handle : Nat) : Nat :=
  (s.tx.stack.takeWhile fun n => n ≠ handle).length

def Observed.release (s : Observed) (handle : Nat) : Observed :=
  Observed.releaseTop^[s.within handle + 1] s

def Observed.rollbackTo (s : Observed) (handle : Nat) : Observed :=
  { (Observed.closeTop^[s.within handle] s).rollbackTop with usable := true }

def Observed.endRoot (s : Observed) : Observed :=
  match s.root with
  | none => s
  | some root =>
    { s with root := none, orphans := [], observer := s.observer.afterTransactionEnd ⟨root, none⟩ }

def Observed.rollback (s : Observed) : Observed :=
  match s.root with
  | none => s
  | some root => (Observed.rollbackTop^[s.tx.stack.length] s).endRoot.afterSoftRollback ⟨root, none⟩

def Observed.close (s : Observed) : Observed := (Observed.closeTop^[s.tx.stack.length] s).endRoot

inductive CommitOutcome
  /-- The flush within `before_commit` raises: `COMMIT` is not sent. -/
  | flushRaised
  /-- `COMMIT` is sent and raises: it may have taken effect or not. -/
  | commitRaised
  | committed
  deriving DecidableEq, Repr

/-- `source_then_observe` of the outer transaction up to the witness. -/
def Observed.witness (s : Observed) (pending : List TradeFact) : Observed :=
  let s := s.flush pending
  match s.observer.beforeCommit s.nested with
  | none => s
  | some witness => { s with witnesses := s.witnesses ++ [witness] }

def Observed.commitStart (s : Observed) : Observed :=
  let s := Observed.releaseTop^[s.tx.stack.length] s
  { s with observer := { s.observer with commitStarted := true } }

def Observed.commit (s : Observed) (pending : List TradeFact)
    (outcome : CommitOutcome) : Observed :=
  let s := s.commitStart
  match outcome with
  | .flushRaised => s.flushRaises pending
  | .commitRaised => { s.witness pending with attempted := true, usable := false }
  | .committed =>
    let s := s.witness pending
    { s with attempted := true, observer := s.observer.afterCommit s.nested }.endRoot

inductive SessionEvent
  | flush (new : List TradeFact)
  | flushRaises (new : List TradeFact)
  | beginNested
  | release (handle : Nat)
  | rollbackTo (handle : Nat)
  | commit (pending : List TradeFact) (outcome : CommitOutcome)
  | rollback
  | close
  deriving DecidableEq, Repr

def Observed.next (s : Observed) : SessionEvent → Option Observed
  | .flush new =>
    let s := s.autobegin
    if s.usable ∧ s.Inserts new then some (s.flush new) else none
  | .flushRaises new =>
    let s := s.autobegin
    if s.usable then some (s.flushRaises new) else none
  | .beginNested =>
    let s := s.autobegin
    if s.usable then some s.beginNested else none
  | .release handle => if s.usable ∧ handle ∈ s.tx.stack then some (s.release handle) else none
  | .rollbackTo handle => if handle ∈ s.tx.stack then some (s.rollbackTo handle) else none
  | .commit pending outcome =>
    let s := s.autobegin
    if s.usable ∧ (outcome = .flushRaised ∨ s.Inserts pending) then some (s.commit pending outcome)
    else none
  | .rollback => some s.rollback
  | .close => some s.close

abbrev ObservedStep := Next Observed.next

end Polycopy
