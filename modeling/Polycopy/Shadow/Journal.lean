import Mathlib.Data.Finset.Insert
import Mathlib.Data.List.Sort
import Mathlib.Data.String.Basic
import Polycopy.Py.Clock
import Polycopy.Shadow.Denial
import Polycopy.Shadow.Observer

/-!
# The fence journal

`replay` of `poly2-comparison-fence.py`: one record after another, by its kind,
each checked against the state rebuilt from those before it.

    ARM        the binding of the run, before the window
    ENROLL     a worker, before CLOSE
    ATTEMPT    a source transaction, admitted in the present epoch
    COMMITTED  its witness was seen in the source database
    ROLLED_BACK
    CLOSE      after the window: the next epoch begins
    ACK        a worker has seen the next epoch
    FENCE      all workers have, and no attempt of the epoch 0 is outstanding
    FREEZE     the facts of the window, from the witnesses and from one SQL snapshot
    ARCHIVE    nothing may follow
    ERROR      nothing may be fenced, frozen or archived any more

The attempts are a `dict` of the replay itself or the disk index of a `Fence`:
`AttemptMap` is what both give.  Digests and signatures are parameters.
-/

namespace Polycopy.Comparison

open Py Py.Clock
open Fence (truthy)

/-! ## Records -/

/-- What the fence reads of the binding of a run. -/
structure Binding where
  evidenceKind : String
  runId : String
  window : Py.Clock.Window
  cohort : List String
  expectedWorkers : List String
  deriving DecidableEq, Repr

/-- A row of `comparison_transaction_witness`, with its whole payload. -/
structure CommitWitness where
  transactionId : String
  bindingSha256 : String
  worker : String
  epoch : Nat
  trades : List TradeFact
  deriving DecidableEq, Repr

structure Receipt where
  protocol : String
  runId : String
  endpointUtc : String
  closingEpoch : Nat
  requiredWriterServices : List String
  expectedWorkers : List String
  acknowledgements : List String
  admitted : Int
  committed : Int
  rolledBack : Int
  outstanding : Int
  highWaterMark : Option Nat
  deriving DecidableEq, Repr

/-- `last_checkpoint` of the SQL adapter. -/
structure SqlCheckpoint where
  isolation : String
  readOnly : String
  snapshot : String
  sourceFactsSha256 : String
  sourceRecordIds : List Nat
  deriving DecidableEq, Repr

structure Population where
  sourceFacts : List TradeFact
  sourceFactsSha256 : String
  frozenIds : List Nat
  frozenIdsSha256 : String
  count : Nat
  fenceReceiptSha256 : String
  /-- `query`: its own fields, then the checkpoint in it. -/
  queryObservedUtc : String
  queryIsolation : String
  querySourceFactsSha256 : String
  sourceSQLCheckpoint : SqlCheckpoint
  deriving DecidableEq, Repr

/-- `kind` and `payload`. -/
inductive Payload
  | arm (binding : Binding)
  | enroll (worker : String) (installation : Option String)
  | attempt (transactionId worker : String) (epoch : Nat) (retryOf : Option String)
  | close (closingEpoch nextEpoch : Nat)
  | ack (worker : String) (epoch : Nat)
  | committed (transactionId : String) (witness : CommitWitness)
  | rolledBack (transactionId : String)
  | archive (decisionReceiptSha256 populationReceiptSha256 : String)
  | error (error : String)
  | fence (receipt : Receipt)
  | freeze (population : Population)
  deriving DecidableEq, Repr

structure Event where
  seq : Nat
  previousSha256 : Option String
  bindingSha256 : String
  observedUtc : String
  payload : Payload
  signature : Option String
  deriving DecidableEq, Repr

/-! ## The set-up of a run -/

/-- `re.fullmatch(r'(backend|bot):[A-Za-z0-9][A-Za-z0-9._-]{0,127}', worker)`. -/
def isWorker (worker : String) : Bool :=
  let ok (name : List Char) : Bool := match name with
    | [] => false
    | c :: rest =>
      c.isAlphanum && rest.all (fun c => c.isAlphanum || c = '.' || c = '_' || c = '-') &&
        rest.length ≤ 127
  let cs := worker.toList
  ("backend:".toList.isPrefixOf cs && ok (cs.drop 8)) ||
    ("bot:".toList.isPrefixOf cs && ok (cs.drop 4))

/-- `worker.split(':', 1)[0]`. -/
def service (worker : String) : List Char := worker.toList.takeWhile (· ≠ ':')

def requiredWriterServices : List String := ["backend", "bot"]

/-- `validate_writer_roster`. -/
def validRoster (workers : List String) : Bool :=
  !workers.isEmpty && workers.all isWorker && workers.Nodup &&
    (workers.map service).toFinset = (requiredWriterServices.map String.toList).toFinset

/-- The SHA-256 of the canonical JSON of a value. -/
structure Digest where
  binding : Binding → String
  event : Event → String
  facts : List TradeFact → String
  ids : List Nat → String

/-- The independent authority of an observational run: the installation it has approved for each
worker, and the signatures of its key. -/
structure Authority where
  installation : String → String
  sign : Event → String
  verify : Event → Bool
  verify_sign : ∀ e : Event, verify { e with signature := some (sign e) } = true

/-- What a `Fence` is opened with. -/
structure Setup where
  binding : Binding
  authority : Option Authority
  digest : Digest
  roster : validRoster binding.expectedWorkers = true
  authorized : binding.evidenceKind = "observational" → authority.isSome

/-! ## Attempts -/

inductive AttemptState
  | outstanding
  | committed (witness : CommitWitness)
  | rolledBack
  deriving DecidableEq, Repr

structure Attempt where
  transactionId : String
  worker : String
  epoch : Nat
  retryOf : Option String
  state : AttemptState
  admittedUtc : String
  deriving DecidableEq, Repr

/-- How many attempts of the epoch 0 are in each state. -/
structure Counts where
  outstanding : Int
  committed : Int
  rolledBack : Int
  deriving DecidableEq, Repr

class AttemptMap (M : Type) where
  empty : M
  find : String → M → Option Attempt
  /-- `attempts[a.transactionId] = a`. -/
  set : Attempt → M → M
  values : M → List Attempt
  /-- What `receipt` counts. -/
  counts : M → Counts

structure State (M : Type) where
  epoch : Nat
  closed : Option Event
  workers : Finset String
  acks : Finset String
  attempts : M
  error : Option String
  receipt : Option Event
  population : Option Event
  archive : Option Event

/-! ## Replay -/

def raiseIf (p : Prop) [Decidable p] (text : String) : Except String Unit :=
  if p then .error text else .ok ()

/-- `epoch(t) > epoch(u)`. -/
def after (t u : String) : Except String Bool :=
  (epochMicros t).bind fun x => (epochMicros u).bind fun y => .ok (y < x)

/-- `epoch(t) >= epoch(u)`. -/
def notBefore (t u : String) : Except String Bool :=
  (epochMicros t).bind fun x => (epochMicros u).bind fun y => .ok (y ≤ x)

def terminalError : String := "fence authority is terminal after ARCHIVE"
def verifyError : String := "authenticated full record payload mismatch"
def chainError : String := "fence journal chain/binding conflict"
def armError : String := "pre-start ARM with exact binding required"
def lateWorkerError : String := "unknown/duplicate/late worker incarnation"
def installationError : String := "approved pre-start installation enrollment required"
def rosterError : String := "all approved instances must enroll before admission"
def attemptError : String := "unregistered/duplicate/generation race attempt"
def retryError : String := "retry requires confirmed rollback; unknown commit is not retryable"
def closeError : String := "inclusive endpoint not passed or conflicting close"
def ackError : String := "unknown/conflicting ACK"
def resolutionError : String := "unknown/duplicate/conflicting transaction resolution"
def witnessError : String := "commit witness identity conflict"
def duplicateFactError : String := "duplicate witness facts"
def postepochError : String := "postepoch original ingestion clock violates admission boundary"
def archiveError : String := "authenticated archive terminal requires complete frozen population"
def fenceError : String := "invalid fence transition"
def fenceReceiptError : String := "all exact worker ACKs and resolved preepoch work required"
def freezeError : String := "freeze requires completed healthy fence"
def populationError : String := "population/witness/count/digest mismatch"
def checkpointError : String := "consistent full-window SQL checkpoint required"
def unknownError : String := "unknown fence event"
def multipleError : String := "source stable ID belongs to multiple committed attempts"
def emptyError : String := "missing ARM"

variable {M : Type} [AttemptMap M]

def State.initial : State M where
  epoch := 0
  closed := none
  workers := ∅
  acks := ∅
  attempts := AttemptMap.empty
  error := none
  receipt := none
  population := none
  archive := none

def Setup.verify (cfg : Setup) (e : Event) : Except String Unit :=
  match cfg.authority with
  | none => .ok ()
  | some a => raiseIf (a.verify e = false) verifyError

/-- The first record. -/
def Setup.arm (cfg : Setup) (e : Event) : Except String Unit := do
  raiseIf (e.payload ≠ .arm cfg.binding) armError
  let late ← after e.observedUtc cfg.binding.window.startUtc
  raiseIf (late = true) armError
  match cfg.authority with
  | none => .ok ()
  | some _ =>
    let late ← notBefore e.observedUtc cfg.binding.window.startUtc
    raiseIf (late = true) armError

/-- `sorted` of a set of texts. -/
def sorted (texts : Finset String) : List String :=
  Quot.liftOn texts.val (fun l => l.insertionSort (· ≤ ·)) fun l l' h => by
    have hperm : (l.insertionSort (· ≤ ·)).Perm (l'.insertionSort (· ≤ ·)) :=
      (List.perm_insertionSort _ l).trans (h.trans (List.perm_insertionSort _ l').symm)
    exact hperm.eq_of_pairwise (fun _ _ _ _ => le_antisymm) (List.pairwise_insertionSort _ l)
      (List.pairwise_insertionSort _ l')

def Setup.receipt (cfg : Setup) (s : State M) : Receipt where
  protocol := "source-epoch-inflight-v1"
  runId := cfg.binding.runId
  endpointUtc := cfg.binding.window.endUtc
  closingEpoch := 0
  requiredWriterServices := requiredWriterServices
  expectedWorkers := cfg.binding.expectedWorkers.insertionSort (· ≤ ·)
  acknowledgements := sorted s.acks
  admitted := (AttemptMap.counts s.attempts).outstanding + (AttemptMap.counts s.attempts).committed +
    (AttemptMap.counts s.attempts).rolledBack
  committed := (AttemptMap.counts s.attempts).committed
  rolledBack := (AttemptMap.counts s.attempts).rolledBack
  outstanding := (AttemptMap.counts s.attempts).outstanding
  highWaterMark := s.closed.map Event.seq

/-- `t['wallet'] in cohort and in_window(t['ingestedUtc'], window)`. -/
def inPopulation (b : Binding) (t : TradeFact) : Except String Bool :=
  if t.wallet ∈ b.cohort then inWindow t.ingestedUtc b.window else .ok false

/-- One fact of one committed attempt. -/
def addFact (b : Binding) (facts : List TradeFact) (t : TradeFact) :
    Except String (List TradeFact) := do
  if ← inPopulation b t then
    raiseIf (∃ u ∈ facts, u.sourceRecordId = t.sourceRecordId) multipleError
    .ok (facts ++ [t])
  else .ok facts

def AttemptState.witness : AttemptState → Option CommitWitness
  | .committed w => some w
  | _ => none

/-- The facts of an attempt, if it is committed. -/
def Attempt.facts (a : Attempt) : List TradeFact :=
  (a.state.witness.map CommitWitness.trades).getD []

/-- `sorted(facts, key=lambda t: canonical(t['sourceRecordId']))`: by the text of the id. -/
def sortFacts (facts : List TradeFact) : List TradeFact :=
  facts.insertionSort fun t u => toString t.sourceRecordId ≤ toString u.sourceRecordId

def committedPopulation (b : Binding) (s : State M) : Except String (List TradeFact) :=
  (((AttemptMap.values s.attempts).flatMap Attempt.facts).foldlM (addFact b) []).map sortFacts

/-- The clocks of the facts of a witness, one after another. -/
def checkClocks (b : Binding) (epoch : Nat) : List TradeFact → Except String Unit
  | [] => .ok ()
  | t :: facts => do
    let ingested ← epochMicros t.ingestedUtc
    if 0 < epoch then
      let stop ← epochMicros b.window.endUtc
      raiseIf (ingested ≤ stop) postepochError
    checkClocks b epoch facts

/-- `COMMITTED` of an attempt. -/
def Setup.checkWitness (cfg : Setup) (a : Attempt) (w : CommitWitness) : Except String Unit := do
  raiseIf (w.transactionId ≠ a.transactionId ∨
    w.bindingSha256 ≠ cfg.digest.binding cfg.binding ∨ w.worker ≠ a.worker ∨
    w.epoch ≠ a.epoch) witnessError
  raiseIf (¬ (w.trades.map TradeFact.sourceRecordId).Nodup ∨
    ¬ (w.trades.map TradeFact.sourceEventId).Nodup) duplicateFactError
  checkClocks cfg.binding a.epoch w.trades

/-- `re.fullmatch('[a-f0-9]{64}', text)`. -/
def isSha256 (text : String) : Bool :=
  text.toList.length = 64 && text.toList.all fun c => c.isDigit || ('a' ≤ c && c ≤ 'f')

def Setup.checkFreeze (cfg : Setup) (fence : Event) (facts : List TradeFact)
    (p : Population) : Except String Unit := do
  raiseIf (p.sourceFacts ≠ facts ∨ p.sourceFactsSha256 ≠ cfg.digest.facts facts ∨
    p.frozenIds ≠ facts.map TradeFact.sourceRecordId ∨
    p.frozenIdsSha256 ≠ cfg.digest.ids p.frozenIds ∨
    p.fenceReceiptSha256 ≠ cfg.digest.event fence) populationError
  raiseIf (p.count ≠ facts.length ∨ p.querySourceFactsSha256 ≠ cfg.digest.facts facts ∨
    p.queryIsolation ≠ "REPEATABLE_READ_READ_ONLY" ∨
    p.sourceSQLCheckpoint.isolation ≠ "repeatable read" ∨
    p.sourceSQLCheckpoint.readOnly ≠ "on" ∨ p.sourceSQLCheckpoint.snapshot = "" ∨
    p.sourceSQLCheckpoint.sourceFactsSha256 ≠ cfg.digest.facts facts ∨
    p.sourceSQLCheckpoint.sourceRecordIds ≠ p.frozenIds)
    checkpointError

/-- An outstanding attempt. -/
def State.outstanding (s : State M) (transactionId : String) : Option Attempt :=
  (AttemptMap.find transactionId s.attempts).filter fun a => a.state = .outstanding

/-- What a record after the first does to the state. -/
def State.next (cfg : Setup) (s : State M) (e : Event) : Except String (State M) :=
  match e.payload with
  | .arm _ => .error unknownError
  | .enroll worker installation => do
    raiseIf (s.closed.isSome ∨ worker ∉ cfg.binding.expectedWorkers ∨
      worker ∈ s.workers) lateWorkerError
    match cfg.authority with
    | none => .ok { s with workers := insert worker s.workers }
    | some a =>
      let late ← notBefore e.observedUtc cfg.binding.window.startUtc
      raiseIf (late = true ∨ installation ≠ some (a.installation worker)) installationError
      .ok { s with workers := insert worker s.workers }
  | .attempt transactionId worker epoch retryOf => do
    raiseIf (cfg.authority.isSome ∧ s.workers ≠ cfg.binding.expectedWorkers.toFinset) rosterError
    raiseIf (worker ∉ s.workers ∨ (AttemptMap.find transactionId s.attempts).isSome ∨
      epoch ≠ s.epoch) attemptError
    raiseIf (∃ r ∈ retryOf, (AttemptMap.find r s.attempts).map Attempt.state ≠
      some .rolledBack) retryError
    .ok { s with
      attempts := AttemptMap.set
        ⟨transactionId, worker, epoch, retryOf, .outstanding, e.observedUtc⟩ s.attempts }
  | .close closingEpoch nextEpoch => do
    raiseIf (s.closed.isSome ∨ closingEpoch ≠ s.epoch ∨ nextEpoch ≠ s.epoch + 1) closeError
    let passed ← after e.observedUtc cfg.binding.window.endUtc
    raiseIf (passed = false) closeError
    .ok { s with closed := some e, epoch := s.epoch + 1 }
  | .ack worker epoch => do
    raiseIf (s.closed.isNone ∨ worker ∉ s.workers ∨ epoch ≠ s.epoch) ackError
    .ok { s with acks := insert worker s.acks }
  | .committed transactionId w =>
    match s.outstanding transactionId with
    | none => .error resolutionError
    | some a => do
      cfg.checkWitness a w
      .ok { s with attempts := AttemptMap.set { a with state := .committed w } s.attempts }
  | .rolledBack transactionId =>
    match s.outstanding transactionId with
    | none => .error resolutionError
    | some a => .ok { s with attempts := AttemptMap.set { a with state := .rolledBack } s.attempts }
  | .archive decision population => do
    raiseIf (cfg.authority.isNone ∨ s.population.isNone ∨
      truthy s.error ∨ isSha256 decision = false ∨
      some population ≠ s.population.map cfg.digest.event) archiveError
    .ok { s with archive := some e }
  | .error error => .ok { s with error := some error }
  | .fence r => do
    raiseIf (s.receipt.isSome ∨ truthy s.error ∨ s.closed.isNone) fenceError
    raiseIf (r ≠ cfg.receipt s ∨ (cfg.receipt s).outstanding ≠ 0 ∨
      s.acks ≠ cfg.binding.expectedWorkers.toFinset)
      fenceReceiptError
    .ok { s with receipt := some e }
  | .freeze p =>
    match s.receipt with
    | none => .error freezeError
    | some fence => do
      raiseIf (s.population.isSome ∨ truthy s.error) freezeError
      let facts ← committedPopulation cfg.binding s
      cfg.checkFreeze fence facts p
      .ok { s with population := some e }

/-- One turn of the loop of `replay`. -/
def replayOne (cfg : Setup) (s : State M) (index : Nat) (previous : Option String) (e : Event) :
    Except String (State M) := do
  raiseIf (s.archive.isSome = true) terminalError
  cfg.verify e
  raiseIf (e.seq ≠ index ∨ e.previousSha256 ≠ previous ∨
    e.bindingSha256 ≠ cfg.digest.binding cfg.binding) chainError
  if index = 1 then do
    cfg.arm e
    .ok s
  else s.next cfg e

def replayFrom (cfg : Setup) (s : State M) (start : Nat) (previous : Option String) :
    List Event → Except String (State M)
  | [] => .ok s
  | e :: events => do
    let s ← replayOne cfg s start previous e
    replayFrom cfg s (start + 1) (some (cfg.digest.event e)) events

def replay (cfg : Setup) (events : List Event) : Except String (State M) :=
  if events = [] then .error emptyError else replayFrom cfg .initial 1 none events

/-! ## Writing one -/

/-- `self.hash(events[-1]) if events else None`. -/
def lastHash (cfg : Setup) (log : List Event) : Option String := log.getLast?.map cfg.digest.event

/-- The record `_append` makes, signed where there is an authority. -/
def Setup.record (cfg : Setup) (log : List Event) (observedUtc : String)
    (payload : Payload) : Event :=
  let e : Event :=
    ⟨log.length + 1, lastHash cfg log, cfg.digest.binding cfg.binding, observedUtc, payload, none⟩
  match cfg.authority with
  | none => e
  | some a => { e with signature := some (a.sign e) }

/-! ## What a record has passed -/

theorem bind_ok_iff {α β : Type} {x : Except String α} {f : α → Except String β} {r : β} :
    (x >>= f) = .ok r ↔ ∃ a, x = .ok a ∧ f a = .ok r := by
  cases x with
  | error e => exact ⟨nofun, nofun⟩
  | ok a => exact ⟨fun h => ⟨a, rfl, h⟩, fun ⟨_, ha, h⟩ => Except.ok.inj ha ▸ h⟩

theorem raiseIf_ok_iff {p : Prop} [Decidable p] {text : String} {u : Unit} :
    raiseIf p text = .ok u ↔ ¬ p := by
  unfold raiseIf
  split <;> simp_all

/-- One step of the journal, by the kind of the record. -/
inductive Next (cfg : Setup) (s : State M) (e : Event) : State M → Prop
  | enroll (worker : String) (installation : Option String) :
      e.payload = .enroll worker installation → s.closed = none →
      worker ∈ cfg.binding.expectedWorkers → worker ∉ s.workers →
      Next cfg s e { s with workers := insert worker s.workers }
  | attempt (transactionId worker : String) (retryOf : Option String) :
      e.payload = .attempt transactionId worker s.epoch retryOf → worker ∈ s.workers →
      (cfg.authority.isSome → s.workers = cfg.binding.expectedWorkers.toFinset) →
      AttemptMap.find transactionId s.attempts = none →
      Next cfg s e { s with
        attempts := AttemptMap.set ⟨transactionId, worker, s.epoch, retryOf,
          .outstanding, e.observedUtc⟩ s.attempts }
  | close : e.payload = .close s.epoch (s.epoch + 1) → s.closed = none →
      after e.observedUtc cfg.binding.window.endUtc = .ok true →
      Next cfg s e { s with closed := some e, epoch := s.epoch + 1 }
  | ack (worker : String) : e.payload = .ack worker s.epoch → s.closed.isSome → worker ∈ s.workers →
      Next cfg s e { s with acks := insert worker s.acks }
  | committed (transactionId : String) (w : CommitWitness) (a : Attempt) :
      e.payload = .committed transactionId w →
      s.outstanding transactionId = some a → cfg.checkWitness a w = .ok () →
      Next cfg s e { s with attempts := AttemptMap.set { a with state := .committed w } s.attempts }
  | rolledBack (transactionId : String) (a : Attempt) : e.payload = .rolledBack transactionId →
      s.outstanding transactionId = some a →
      Next cfg s e { s with attempts := AttemptMap.set { a with state := .rolledBack } s.attempts }
  | archive (decision population : String) : e.payload = .archive decision population →
      cfg.authority.isSome →
      truthy s.error = false → s.population.map cfg.digest.event = some population →
      Next cfg s e { s with archive := some e }
  | error (text : String) : e.payload = .error text → Next cfg s e { s with error := some text }
  | fence : e.payload = .fence (cfg.receipt s) → s.receipt = none →
      truthy s.error = false → s.closed.isSome →
      (cfg.receipt s).outstanding = 0 → s.acks = cfg.binding.expectedWorkers.toFinset →
      Next cfg s e { s with receipt := some e }
  | freeze (p : Population) (fence : Event) (facts : List TradeFact) : e.payload = .freeze p →
      s.receipt = some fence →
      s.population = none → truthy s.error = false → committedPopulation cfg.binding s = .ok facts →
      cfg.checkFreeze fence facts p = .ok () → Next cfg s e { s with population := some e }

theorem next_cases {cfg : Setup} {s s' : State M} {e : Event}
    (h : s.next cfg e = .ok s') : Next cfg s e s' := by
  unfold State.next at h
  cases hp : e.payload with
  | arm b =>
    rw [hp] at h
    cases h
  | enroll worker installation =>
    simp only [hp, bind_ok_iff, raiseIf_ok_iff, not_or, not_not, Option.not_isSome_iff_eq_none] at h
    obtain ⟨-, ⟨hopen, hexpected, hnew⟩, h⟩ := h
    have hs : s' = { s with workers := insert worker s.workers } := by
      cases ha : cfg.authority with
      | none =>
        rw [ha] at h
        exact (Except.ok.inj h).symm
      | some a =>
        simp only [ha, bind_ok_iff, Except.ok.injEq] at h
        obtain ⟨-, -, -, -, h⟩ := h
        exact h.symm
    rw [hs]
    exact .enroll worker installation hp hopen hexpected hnew
  | attempt transactionId worker epoch retryOf =>
    simp only [hp, bind_ok_iff, raiseIf_ok_iff, not_or, not_not, not_and,
      Option.not_isSome_iff_eq_none, Except.ok.injEq] at h
    obtain ⟨-, hall, -, ⟨hworker, hnew, rfl⟩, -, -, rfl⟩ := h
    exact .attempt transactionId worker retryOf hp hworker hall hnew
  | close closingEpoch nextEpoch =>
    simp only [hp, bind_ok_iff, raiseIf_ok_iff, not_or, not_not,
      Option.not_isSome_iff_eq_none, Except.ok.injEq] at h
    obtain ⟨-, ⟨hopen, rfl, rfl⟩, passed, hpassed, -, htrue, rfl⟩ := h
    rw [Bool.not_eq_false] at htrue
    exact .close hp hopen (htrue ▸ hpassed)
  | ack worker epoch =>
    simp only [hp, bind_ok_iff, raiseIf_ok_iff, not_or, not_not, Except.ok.injEq] at h
    obtain ⟨-, ⟨hclosed, hworker, rfl⟩, rfl⟩ := h
    exact .ack worker hp (Option.isSome_iff_ne_none.mpr (by simpa using hclosed)) hworker
  | committed transactionId w =>
    cases ha : s.outstanding transactionId with
    | none =>
      simp only [hp, ha] at h
      cases h
    | some a =>
      simp only [hp, ha, bind_ok_iff, Except.ok.injEq] at h
      obtain ⟨⟨⟩, hw, rfl⟩ := h
      exact .committed transactionId w a hp ha hw
  | rolledBack transactionId =>
    cases ha : s.outstanding transactionId with
    | none =>
      simp only [hp, ha] at h
      cases h
    | some a =>
      simp only [hp, ha, Except.ok.injEq] at h
      subst h
      exact .rolledBack transactionId a hp ha
  | archive decision population =>
    simp only [hp, bind_ok_iff, raiseIf_ok_iff, not_or, not_not, Except.ok.injEq] at h
    obtain ⟨-, ⟨hauthority, -, herror, -, hpopulation⟩, rfl⟩ := h
    exact .archive decision population hp (Option.isSome_iff_ne_none.mpr
      (by simpa using hauthority)) (by simpa using herror) hpopulation.symm
  | error text =>
    rw [hp] at h
    rw [← Except.ok.inj h]
    exact .error text hp
  | fence r =>
    simp only [hp, bind_ok_iff, raiseIf_ok_iff, not_or, not_not,
      Option.not_isSome_iff_eq_none, Except.ok.injEq] at h
    obtain ⟨-, ⟨hreceipt, herror, hclosed⟩, -, ⟨rfl, hresolved, hacks⟩, rfl⟩ := h
    exact .fence hp hreceipt (by simpa using herror)
      (Option.isSome_iff_ne_none.mpr (by simpa using hclosed)) hresolved hacks
  | freeze p =>
    cases hfence : s.receipt with
    | none =>
      simp only [hp, hfence] at h
      cases h
    | some fence =>
      simp only [hp, hfence, bind_ok_iff, raiseIf_ok_iff, not_or,
        Option.not_isSome_iff_eq_none, Except.ok.injEq] at h
      obtain ⟨-, ⟨hpopulation, herror⟩, facts, hfacts, ⟨⟩, hcheck, rfl⟩ := h
      simpa only [hfence] using Next.freeze p fence facts hp hfence hpopulation
        (by simpa using herror) hfacts hcheck

theorem replayOne_cases {cfg : Setup} {s s' : State M} {index : Nat}
    {previous : Option String} {e : Event} (h : replayOne cfg s index previous e = .ok s') :
    s.archive = none ∧ cfg.verify e = .ok () ∧ e.seq = index ∧ e.previousSha256 = previous ∧
      ((index = 1 ∧ cfg.arm e = .ok () ∧ s' = s) ∨ (index ≠ 1 ∧ Next cfg s e s')) := by
  unfold replayOne at h
  simp only [bind_ok_iff, raiseIf_ok_iff, not_or, not_not, Bool.not_eq_true,
    Option.isSome_eq_false_iff, Option.isNone_iff_eq_none] at h
  obtain ⟨-, harchive, ⟨⟩, hverify, -, ⟨hseq, hprevious, -⟩, h⟩ := h
  refine ⟨harchive, hverify, hseq, hprevious, ?_⟩
  split at h
  · next hfirst =>
    obtain ⟨⟨⟩, harm, hs⟩ := bind_ok_iff.mp h
    exact Or.inl ⟨hfirst, harm, (Except.ok.inj hs).symm⟩
  · next hfirst => exact Or.inr ⟨hfirst, next_cases h⟩

end Polycopy.Comparison
