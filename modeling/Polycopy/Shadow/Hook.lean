import Polycopy.Lib.Keyed
import Polycopy.Lib.LogFold
import Polycopy.Shadow.Receipts

/-!
# The source hook

`ObservationHook` is told of every transaction of the source and writes two files:

    source_transactions.ndjson       OWNER_START, REGISTER, BEGIN, BEFORE_COMMIT, COMMIT_ACK,
                                     ROLLBACK_ACK, OWNER_STOP
    poly2_source_receipts.ndjson     ACTIVATION, COMMIT with the facts, END_FENCE

A call that raises changes nothing for the source: the hook is unhealthy from then on, and
`source_capture_health.json` says so to the next start.  A restart reads both files back.
Appends fail or die halfway, processes crash, and the database commits or rolls back what
it is in doubt about at any time.

`Written` is what is then on disk: each line found in both files what it was to find.
-/

namespace Polycopy.Observation

open Py Py.Clock Runs
open Comparison
  (raiseIf raiseIf_ok_iff raiseIf_not raiseIf_pos bind_ok_iff notBefore Signer WriteFault)

variable {φ ρ : Type}

/-! ## The two files -/

/-- `kind` and `payload` of a control. -/
inductive Control
  | ownerStart (bindingSha256 : String)
  | register (writer : String)
  | begin (transactionId writer : String)
  | beforeCommit (transactionId before : String)
  | commitAck (transactionId : String) (cursor : Nat)
  | rollbackAck (transactionId : String)
  | ownerStop (cursor : Nat)
  | other (kind : String)
  deriving DecidableEq, Repr

structure ControlLine where
  observedUtc : String
  control : Control
  deriving DecidableEq, Repr

inductive FrameKind
  | activation
  | commit
  | endFence
  | other (kind : String)
  deriving DecidableEq, Repr

structure DrainFence where
  protocol : String
  registeredWriters : List String
  outstandingTransactions : Nat
  unresolvedFailures : Nat
  throughCursor : Nat
  deriving DecidableEq, Repr

/-- A source frame; its facts are JSON values, `φ`. -/
structure Frame (φ : Type) where
  version : Nat
  bindingSha256 : String
  cursor : Nat
  previousCursor : Nat
  transactionId : String
  observedUtc : String
  kind : FrameKind
  trades : List φ
  decisions : List φ
  commitBeforeUtc : Option String
  commitAfterUtc : Option String
  fence : Option DrainFence
  signedPayload : Option String
  signature : Option String
  deriving DecidableEq, Repr

/-- A file of lines, and whether it ends in a part of one. -/
structure Ndjson (ρ : Type) where
  present : Bool
  lines : List ρ
  torn : Bool
  deriving DecidableEq, Repr

def Ndjson.absent : Ndjson ρ := ⟨false, [], false⟩

/-- An append that has come this far. What follows a torn line is a part of it. -/
def Ndjson.write (f : Ndjson ρ) (line : ρ) : WriteFault → Ndjson ρ
  | .clean => f
  | .created => { f with present := true }
  | .torn => { f with present := true, torn := true }
  | .kept => { f with present := true, lines := if f.torn then f.lines else f.lines ++ [line] }

/-- The two files, and whether there is a `source_capture_health.json`. -/
structure Files (φ : Type) where
  controls : Ndjson ControlLine
  frames : Ndjson (Frame φ)
  health : Bool
  deriving DecidableEq, Repr

inductive Entry (φ : Type)
  | control (line : ControlLine)
  | frame (frame : Frame φ)
  deriving DecidableEq, Repr

def Files.write (d : Files φ) (e : Entry φ) (fault : WriteFault) : Files φ :=
  match e with
  | .control line => { d with controls := d.controls.write line fault }
  | .frame f => { d with frames := d.frames.write f fault }

/-! ## The hook -/

/-- A value of `pending`, with its key. -/
structure Intent where
  transactionId : String
  writer : String
  before : Option String
  deriving DecidableEq, Repr

/-- `commits` is `_commits` without its keys, which are the `transactionId`s. -/
structure Hook (φ : Type) where
  healthy : Bool
  error : Option String
  cursor : Nat
  pending : List Intent
  commits : List (Frame φ)
  writers : List String
  active : Bool
  ended : Bool
  deriving DecidableEq, Repr

def Hook.fresh : Hook φ := ⟨true, none, 0, [], [], [], false, false⟩

structure Setup (φ : Type) where
  evidenceKind : String
  bindingSha256 : String
  window : Py.Clock.Window
  syntheticClock : Bool
  signer : Option Signer
  canonical : Frame φ → String

def sourceWriters : List String := ["ingestion", "execution"]

/-- `writers == {'ingestion', 'execution'}`. -/
def Enrolled (writers : List String) : Prop := writers.toFinset = sourceWriters.toFinset

instance (writers : List String) : Decidable (Enrolled writers) :=
  inferInstanceAs (Decidable (_ = _))

def drainFence (writers : List String) (cursor : Nat) : DrainFence where
  protocol := "all-writers-transaction-drain-v1"
  registeredWriters := writers.insertionSort (· ≤ ·)
  outstandingTransactions := 0
  unresolvedFailures := 0
  throughCursor := cursor

def syntheticError : String := "synthetic clock required; no impersonated signature"
def observationalError : String := "observational source requires real clock and signing key"
def lockError : String := "[Errno 11] Resource temporarily unavailable"
def orphanError : String := "orphan source frames without ownership/control authority"
def tornError : String := "torn source journal; preserved, recovery refused"
def ownershipError : String := "source ownership/binding mismatch"
def stopError : String := "source control after owner stop"
def writerError : String := "unknown source writer"
def transactionError : String := "duplicate/unenrolled transaction"
def intentError : String := "conflicting commit intent"
def acknowledgementError : String := "conflicting commit acknowledgement"
def rollbackError : String := "conflicting rollback acknowledgement"
def controlError : String := "unknown source control"
def positionError : String := "source frame binding/position conflict"
def forbiddenSignatureError : String := "synthetic signature forbidden"
def payloadError : String := "source signed payload conflict"
def recoveryKeyError : String := "missing source recovery verification key"
def signatureError : String := "invalid signature"
def activationError : String := "invalid source activation"
def conflictError : String := "commit frame/control conflict"
def timestampError : String := "clock: explicit timestamp required"
def fenceOrderError : String := "invalid source fence ordering"
def fenceError : String := "invalid source fence"
def frameError : String := "unknown source frame"
def ackError : String := "commit ACK without durable source frame"
def outcomeError : String :=
  "POLY2_PROSPECTIVE_CAPTURE_INSUFFICIENT: authoritative transaction recovery missing for pending outcome"
def ownerStopError : String := "owner stop without durable fence"
def continuityError : String :=
  "POLY2_PROSPECTIVE_CAPTURE_INSUFFICIENT: production restart requires all-writer downtime continuity authority"
def latchError : String := "source failure latch retained; no recovery authorization"
def enrollmentError : String := "writer enrollment must precede activation"
def authorityError : String :=
  "POLY2_PROSPECTIVE_CAPTURE_INSUFFICIENT: observational hook lacks authorized all-writer commit " ++
    "recovery and boundary authority"
def preStartError : String := "both source writers and pre-start activation required"
def captureError : String := "source capture not active/enrolled"
def unregisteredError : String := "unregistered commit"
def replayError : String := "conflicting source transaction replay"
def receiptError : String := "commit without durable begin/before receipt"
def rolledError : String := "rollback without begin"
def boundaryError : String := "end boundary not drained; no end receipt"
def signingKeyError : String := "missing source signing key"
def osError : String := "OSError"

/-! ## `_restore` -/

/-- What the controls say: the writers and `pending` of the hook, and what
`_restore` alone keeps. -/
structure Ledger where
  writers : List String
  pending : List Intent
  ack : List (String × Nat)
  rolled : List String
  stopped : Bool
  deriving DecidableEq, Repr

def Ledger.fresh : Ledger := ⟨[], [], [], [], false⟩

/-- The intents whose `before` a `BEFORE_COMMIT` sets. -/
def setBefore (transactionId before : String) (pending : List Intent) : List Intent :=
  Keyed.update Intent.transactionId transactionId (fun p => { p with before := some before }) pending

def Ledger.read (l : Ledger) (c : Control) : Except String Ledger := do
  raiseIf (l.stopped = true) stopError
  match c with
  | .register writer => do
    raiseIf (writer ∉ sourceWriters) writerError
    .ok { l with writers := l.writers.insert writer }
  | .begin token writer => do
    raiseIf (token ∈ l.pending.map Intent.transactionId ∨ writer ∉ l.writers) transactionError
    .ok { l with pending := l.pending ++ [⟨token, writer, none⟩] }
  | .beforeCommit token before => do
    raiseIf ((Keyed.find Intent.transactionId token l.pending).map Intent.before ≠
      some none) intentError
    .ok { l with pending := setBefore token before l.pending }
  | .commitAck token cursor => do
    raiseIf (token ∉ l.pending.map Intent.transactionId ∨ token ∈ l.ack.map Prod.fst ∨
      token ∈ l.rolled) acknowledgementError
    .ok { l with ack := l.ack ++ [(token, cursor)] }
  | .rollbackAck token => do
    raiseIf (token ∉ l.pending.map Intent.transactionId ∨ token ∈ l.ack.map Prod.fst ∨
      token ∈ l.rolled) rollbackError
    .ok { l with rolled := l.rolled ++ [token] }
  | .ownerStop _ => .ok { l with stopped := true }
  | .ownerStart _ => .error controlError
  | .other _ => .error controlError

/-- What is signed of a frame. -/
def Frame.unsigned (f : Frame φ) : Frame φ := { f with signedPayload := none, signature := none }

def Setup.checkSignature (s : Setup φ) (f : Frame φ) : Except String Unit :=
  if s.evidenceKind = "synthetic" then raiseIf (f.signature ≠ none) forbiddenSignatureError
  else do
    raiseIf (f.signedPayload ≠ some (s.canonical f.unsigned)) payloadError
    match s.signer with
    | none => .error recoveryKeyError
    | some key =>
      raiseIf (¬ f.signature.any fun signature =>
        key.verify signature (s.canonical f.unsigned)) signatureError

/-- `epoch(commitBeforeUtc) > epoch(commitAfterUtc)`. -/
def Frame.reversed (f : Frame φ) : Except String Bool :=
  match f.commitBeforeUtc, f.commitAfterUtc with
  | some before, some after => Comparison.after before after
  | _, _ => .error timestampError

def Setup.readFrame (s : Setup φ) (l : Ledger) (h : Hook φ) (f : Frame φ) :
    Except String (Hook φ) := do
  raiseIf (f.bindingSha256 ≠ s.bindingSha256 ∨ f.previousCursor ≠ h.cursor ∨
    f.cursor ≠ h.cursor + 1 ∨ f.version ≠ 1) positionError
  s.checkSignature f
  match f.kind with
  | .activation => do
    raiseIf (h.active = true ∨ h.cursor ≠ 0 ∨ ¬ Enrolled h.writers) activationError
    .ok { h with active := true, cursor := f.cursor }
  | .commit => do
    raiseIf (h.active = false ∨ h.ended = true ∨ f.transactionId ∈ l.rolled ∨
      f.transactionId ∈ h.commits.map Frame.transactionId ∨
      (Keyed.find Intent.transactionId f.transactionId h.pending).map Intent.before ≠
        some f.commitBeforeUtc) conflictError
    let reversed ← f.reversed
    raiseIf (reversed = true ∨ ∃ a ∈ l.ack, a.1 = f.transactionId ∧ a.2 ≠ f.cursor) conflictError
    .ok { h with commits := h.commits ++ [f], cursor := f.cursor }
  | .endFence => do
    raiseIf (h.active = false ∨ h.ended = true) fenceOrderError
    let reached ← notBefore f.observedUtc s.window.endUtc
    raiseIf (reached = false ∨ f.fence ≠ some (drainFence h.writers h.cursor)) fenceError
    .ok { h with ended := true, cursor := f.cursor }
  | .other _ => .error frameError

/-- The cursor in the payload of a control. -/
def Control.cursor : Control → Option Nat
  | .commitAck _ cursor => some cursor
  | .ownerStop cursor => some cursor
  | _ => none

/-- The end of `_restore`. -/
def Setup.resume (s : Setup φ) (health : Bool) (last : Option Control) (l : Ledger)
    (h : Hook φ) : Except String Unit := do
  raiseIf (h.pending ≠ []) outcomeError
  raiseIf (l.stopped = true ∧ (h.ended = false ∨
    last.bind Control.cursor ≠ some h.cursor)) ownerStopError
  raiseIf (s.evidenceKind ≠ "synthetic" ∧ h.ended = false) continuityError
  raiseIf (health = true) latchError

/-- An exception leaves the hook as it then is. -/
def leaves {σ α : Type} (s : σ) (x : Except String α) : Except (σ × String) α :=
  x.mapError fun text => (s, text)

/-- `pending` without what has ended. -/
def Hook.settled (h : Hook φ) (l : Ledger) : Hook φ :=
  { h with
    pending := h.pending.filter fun p =>
      p.transactionId ∉ l.rolled ∧ p.transactionId ∉ h.commits.map Frame.transactionId }

def Ledger.hook (l : Ledger) : Hook φ :=
  { Hook.fresh with writers := l.writers, pending := l.pending }

def Setup.restore (s : Setup φ) (d : Files φ) : Except (Hook φ × String) (Hook φ) := do
  leaves .fresh (raiseIf (d.controls.torn = true) tornError)
  match d.controls.lines.map ControlLine.control with
  | [] => .error (.fresh, ownershipError)
  | first :: rest => do
    leaves .fresh (raiseIf (first ≠ .ownerStart s.bindingSha256) ownershipError)
    let l ← (LogFold.runFrom (fun _ l c => leaves l (l.read c)) [] .fresh rest).mapError
      fun (l, text) => (l.hook, text)
    leaves l.hook (raiseIf (d.frames.torn = true) tornError)
    let h ← LogFold.runFrom (fun _ h f => leaves h (s.readFrame l h f)) [] l.hook d.frames.lines
    leaves h (raiseIf (∃ a ∈ l.ack, a.1 ∉ h.commits.map Frame.transactionId) ackError)
    leaves (h.settled l) (s.resume d.health (rest.getLast?) l (h.settled l))
    .ok (h.settled l)

/-! ## Calls -/

/-- An append, of what the hook then says, and what the hook becomes after it. -/
structure Act (φ : Type) where
  entry : Hook φ → Entry φ
  next : Hook φ → Hook φ

/-- `_control`. -/
def control (observedUtc : String) (c : Control) : Entry φ := .control ⟨observedUtc, c⟩

/-- The signature of a frame; a synthetic one has none. -/
def Setup.signed (s : Setup φ) (f : Frame φ) : Except String (Frame φ) :=
  if s.evidenceKind = "synthetic" then .ok f
  else match s.signer with
    | none => .error signingKeyError
    | some key =>
      .ok { f with
        signedPayload := some (s.canonical f), signature := some (key.sign (s.canonical f)) }

/-- The frame of `_frame`. -/
def Setup.frame (s : Setup φ) (h : Hook φ) (kind : FrameKind) (transactionId observedUtc : String)
    (trades decisions : List φ) (before after : Option String)
    (fence : Option DrainFence) : Except String (Frame φ) :=
  s.signed {
    version := 1
    bindingSha256 := s.bindingSha256
    cursor := h.cursor + 1
    previousCursor := h.cursor
    transactionId := transactionId
    observedUtc := observedUtc
    kind := kind
    trades := trades
    decisions := decisions
    commitBeforeUtc := before
    commitAfterUtc := after
    fence := fence
    signedPayload := none
    signature := none }

/-- A method, with what it reads from the clock and what `uuid4` gives it. -/
inductive Call (φ : Type)
  | registerWriter (writer observedUtc : String)
  | activate (now transactionId observedUtc : String)
  | begin (writer token observedUtc : String)
  | beforeCommit (token before observedUtc : String)
  | committed (token : String) (trades decisions : List φ) (after observedUtc ackUtc : String)
  | rolledBack (token observedUtc : String)
  | endFence (now transactionId observedUtc stopUtc : String)
  deriving DecidableEq, Repr

def Hook.registerWriter (h : Hook φ) (writer observedUtc : String) :
    Except String (Option (List (Act φ))) := do
  raiseIf (h.healthy = false ∨ h.active = true ∨ writer ∉ sourceWriters) enrollmentError
  .ok (some [⟨fun _ => control observedUtc (.register writer),
    fun h => { h with writers := h.writers.insert writer }⟩])

/-- `_frame` of an unhealthy hook is `False`. -/
def Setup.activate (s : Setup φ) (h : Hook φ) (now transactionId observedUtc : String) :
    Except String (Option (List (Act φ))) := do
  raiseIf (s.evidenceKind ≠ "synthetic") authorityError
  raiseIf (h.active = true ∨ ¬ Enrolled h.writers) preStartError
  let late ← Comparison.after now s.window.startUtc
  raiseIf (late = true) preStartError
  if h.healthy then
    let f ← s.frame h .activation transactionId observedUtc [] [] none none none
    .ok (some [⟨fun _ => .frame f, fun h => { h with cursor := f.cursor, active := true }⟩])
  else .ok none

def Hook.begin (h : Hook φ) (writer token observedUtc : String) :
    Except String (Option (List (Act φ))) := do
  raiseIf (h.healthy = false ∨ h.active = false ∨ h.ended = true ∨ writer ∉ h.writers) captureError
  .ok (some [⟨fun _ => control observedUtc (.begin token writer),
    fun h => { h with pending := h.pending ++ [⟨token, writer, none⟩] }⟩])

def Hook.beforeCommit (h : Hook φ) (token before observedUtc : String) :
    Except String (Option (List (Act φ))) := do
  raiseIf (h.healthy = false ∨ token ∉ h.pending.map Intent.transactionId) unregisteredError
  .ok (some [⟨fun _ => control observedUtc (.beforeCommit token before),
    fun h => { h with pending := setBefore token before h.pending }⟩])

def Hook.forget (token : String) (h : Hook φ) : Hook φ :=
  { h with pending := h.pending.filter fun p => p.transactionId ≠ token }

/-- A transaction told already is not told again. -/
def Setup.committed [DecidableEq φ] (s : Setup φ) (h : Hook φ)
    (token : String) (trades decisions : List φ)
    (after observedUtc ackUtc : String) : Except String (Option (List (Act φ))) :=
  if h.healthy then
    match Keyed.find Frame.transactionId token h.commits with
    | some old => do
      raiseIf (old.trades ≠ trades ∨ old.decisions ≠ decisions) replayError
      .ok (some [])
    | none =>
      match (Keyed.find Intent.transactionId token h.pending).bind Intent.before with
      | none => .error receiptError
      | some before => do
        let f ← s.frame h .commit token observedUtc trades decisions (some before) (some after) none
        .ok (some [⟨fun _ => .frame f, fun h => { h with
          cursor := f.cursor, commits := h.commits ++ [f] }⟩,
          ⟨fun h => control ackUtc (.commitAck token h.cursor), Hook.forget token⟩])
  else .ok none

def Hook.rolledBack (h : Hook φ) (token observedUtc : String) :
    Except String (Option (List (Act φ))) := do
  raiseIf (h.healthy = false ∨ token ∉ h.pending.map Intent.transactionId) rolledError
  .ok (some [⟨fun _ => control observedUtc (.rollbackAck token), Hook.forget token⟩])

def Setup.endFence (s : Setup φ) (h : Hook φ) (now transactionId observedUtc stopUtc : String) :
    Except String (Option (List (Act φ))) := do
  raiseIf (h.healthy = false ∨ h.active = false ∨ h.ended = true ∨ h.pending ≠ []) boundaryError
  let reached ← notBefore now s.window.endUtc
  raiseIf (reached = false) boundaryError
  let f ← s.frame h .endFence transactionId observedUtc [] [] none none
    (some (drainFence h.writers h.cursor))
  .ok (some [⟨fun _ => .frame f, fun h => { h with cursor := f.cursor }⟩,
    ⟨fun h => control stopUtc (.ownerStop h.cursor), fun h => { h with ended := true }⟩])

/-- What a call is to append; `none` is `False` without an exception. -/
def Setup.acts [DecidableEq φ] (s : Setup φ) (h : Hook φ) :
    Call φ → Except String (Option (List (Act φ)))
  | .registerWriter writer observedUtc => h.registerWriter writer observedUtc
  | .activate now transactionId observedUtc => s.activate h now transactionId observedUtc
  | .begin writer token observedUtc => h.begin writer token observedUtc
  | .beforeCommit token before observedUtc => h.beforeCommit token before observedUtc
  | .committed token trades decisions after observedUtc ackUtc =>
    s.committed h token trades decisions after observedUtc ackUtc
  | .rolledBack token observedUtc => h.rolledBack token observedUtc
  | .endFence now transactionId observedUtc stopUtc =>
    s.endFence h now transactionId observedUtc stopUtc

/-- What becomes of an append. -/
inductive Append
  | done
  | raised (fault : WriteFault)
  | died (fault : WriteFault)

inductive Ending
  | returned
  | raised
  | died
  deriving DecidableEq, Repr

def perform (h : Hook φ) (d : Files φ) : List (Act φ) → List Append → Hook φ × Files φ × Ending
  | [], _ => (h, d, .returned)
  | a :: rest, [] => perform (a.next h) (d.write (a.entry h) .kept) rest []
  | a :: rest, .done :: io => perform (a.next h) (d.write (a.entry h) .kept) rest io
  | a :: _, .raised fault :: _ => (h, d.write (a.entry h) fault, .raised)
  | a :: _, .died fault :: _ => (h, d.write (a.entry h) fault, .died)

/-- What a call leaves: the hook, unless the process has died, the files, and
whether the call succeeded. -/
structure Outcome (φ : Type) where
  hook : Option (Hook φ)
  files : Files φ
  answer : Bool

/-- `_risk`, in memory and on disk. -/
def Hook.risk (h : Hook φ) (text : String) : Hook φ :=
  { h with healthy := false, error := some text }

def Files.diagnose (d : Files φ) (saved : Bool) : Files φ := { d with health := d.health || saved }

def conclude (d : Files φ) (io : List Append) (saved : Bool) :
    Except (Hook φ × String) (Hook φ × List (Act φ)) → Outcome φ
  | .error (h, text) => ⟨some (h.risk text), d.diagnose saved, false⟩
  | .ok (h, acts) => match perform h d acts io with
    | (h, d, .returned) => ⟨some h, d, true⟩
    | (h, d, .raised) => ⟨some (h.risk osError), d.diagnose saved, false⟩
    | (_, d, .died) => ⟨none, d, false⟩

def Setup.call [DecidableEq φ] (s : Setup φ) (h : Hook φ) (d : Files φ) (c : Call φ)
    (io : List Append) (saved : Bool) : Outcome φ :=
  match s.acts h c with
  | .error text => conclude d io saved (.error (h, text))
  | .ok none => ⟨some h, d, false⟩
  | .ok (some acts) => conclude d io saved (.ok (h, acts))

/-- The clock and the key. -/
def Setup.custody (s : Setup φ) : Except String Unit :=
  if s.evidenceKind = "synthetic" then raiseIf (s.syntheticClock = false ∨
    s.signer.isSome) syntheticError
  else raiseIf (s.syntheticClock = true ∨ s.signer.isNone) observationalError

/-- `__init__`, where `locked` says whether `source-owner.lock` was free. -/
def Setup.enter (s : Setup φ) (d : Files φ) (locked : Bool) (observedUtc : String) :
    Except (Hook φ × String) (Hook φ × List (Act φ)) := do
  leaves .fresh s.custody
  leaves .fresh (raiseIf (locked = false) lockError)
  if d.controls.present then (s.restore d).map fun h => (h, [])
  else do
    leaves .fresh (raiseIf (d.frames.present = true) orphanError)
    .ok (.fresh, [⟨fun _ => control observedUtc (.ownerStart s.bindingSha256), id⟩])

/-! ## The driver and its database -/

/-- A transaction that has committed. -/
structure Transaction (φ : Type) where
  transactionId : String
  trades : List φ
  decisions : List φ
  deriving DecidableEq, Repr

/-- Of the transactions begun with a token, those it has not ended, those it committed and
those it rolled back. -/
structure Database (φ : Type) where
  working : List String
  committed : List (Transaction φ)
  rolledBack : List String

/-- `refused` says that `begin` has returned `None` while the hook was to capture, and `missed` is
what was committed without a token since. -/
structure Driver (φ : Type) where
  files : Files φ
  hook : Option (Hook φ)
  database : Database φ
  refused : Bool
  missed : List (List φ × List φ)

def Driver.start : Driver φ := ⟨⟨.absent, .absent, false⟩, none, ⟨[], [], []⟩, false, []⟩

def Control.begins : Control → Option String
  | .begin token _ => some token
  | _ => none

def begun (controls : List Control) : List String := controls.filterMap Control.begins

def Fenced (frames : List (Frame φ)) : Prop := ∃ f ∈ frames, f.kind = .endFence

instance (frames : List (Frame φ)) : Decidable (Fenced frames) :=
  inferInstanceAs (Decidable (∃ f ∈ frames, f.kind = .endFence))

/-- ACTIVATION is on disk, END_FENCE is not. -/
def Capturing (frames : List (Frame φ)) : Prop := frames ≠ [] ∧ ¬ Fenced frames

instance (frames : List (Frame φ)) : Decidable (Capturing frames) :=
  haveI : Decidable (frames ≠ []) :=
    decidable_of_iff (frames.isEmpty = false) (by cases frames <;> simp)
  inferInstanceAs (Decidable (_ ∧ _))

/-- What the driver promises: a token of its own, and to tell what the database has told it. -/
def Driver.Obeys [DecidableEq φ] (w : Driver φ) : Call φ → Bool
  | .begin _ token _ => token ∉ begun (w.files.controls.lines.map ControlLine.control)
  | .committed token trades decisions _ _ _ => ⟨token, trades, decisions⟩ ∈ w.database.committed
  | .rolledBack token _ => token ∈ w.database.rolledBack
  | _ => true

/-- What a `begin` comes to. -/
def Driver.told (w : Driver φ) (c : Call φ) (o : Outcome φ) : Driver φ :=
  match c with
  | .begin _ token _ =>
    if o.answer then { w with database.working := w.database.working ++ [token] }
    else { w with
      refused := w.refused || (o.hook.isSome && decide (Capturing w.files.frames.lines)) }
  | _ => w

inductive DriverEvent (φ : Type)
  | opens (locked : Bool) (observedUtc : String) (io : List Append) (saved : Bool)
  /-- Another process finds the lock held. -/
  | contends (saved : Bool)
  | calls (c : Call φ) (io : List Append) (saved : Bool)
  | commits (t : Transaction φ)
  | rollsBack (token : String)
  /-- A transaction without a token commits. -/
  | slips (trades decisions : List φ)
  | crashes

/-- Whether `source_capture_health.json` is written where it is to be. -/
def DriverEvent.saved : DriverEvent φ → Bool
  | .opens _ _ _ saved => saved
  | .contends saved => saved
  | .calls _ _ saved => saved
  | _ => true

def Driver.next [DecidableEq φ] (s : Setup φ) (w : Driver φ) : DriverEvent φ → Option (Driver φ)
  | .opens locked observedUtc io saved =>
    match w.hook with
    | some _ => none
    | none =>
      let o := conclude w.files io saved (s.enter w.files locked observedUtc)
      some { w with files := o.files, hook := o.hook }
  | .contends saved =>
    if w.hook.isSome then some { w with files := w.files.diagnose saved } else none
  | .calls c io saved =>
    match w.hook with
    | none => none
    | some h =>
      if w.Obeys c then
        let o := s.call h w.files c io saved
        some { w.told c o with files := o.files, hook := o.hook }
      else none
  | .commits t =>
    if t.transactionId ∈ w.database.working then
      some { w with
        database.working := w.database.working.erase t.transactionId
        database.committed := w.database.committed ++ [t] }
    else none
  | .rollsBack token =>
    if token ∈ w.database.working then
      some { w with
        database.working := w.database.working.erase token
        database.rolledBack := w.database.rolledBack ++ [token] }
    else none
  | .slips trades decisions =>
    if w.refused then some { w with missed := w.missed ++ [(trades, decisions)] } else none
  | .crashes => some { w with hook := none }

/-! ## What the two files say -/

def Control.registers : Control → Option String
  | .register writer => some writer
  | _ => none

def Control.rollsBack : Control → Option String
  | .rollbackAck token => some token
  | _ => none

def Control.acknowledges : Control → Option (String × Nat)
  | .commitAck token cursor => some (token, cursor)
  | _ => none

def Control.announces : Control → Option (String × String)
  | .beforeCommit token before => some (token, before)
  | _ => none

def registered (controls : List Control) : List String := controls.filterMap Control.registers
def rolled (controls : List Control) : List String := controls.filterMap Control.rollsBack
def acks (controls : List Control) : List (String × Nat) := controls.filterMap Control.acknowledges
def befores (controls : List Control) : List (String × String) :=
  controls.filterMap Control.announces

/-- The last `BEFORE_COMMIT` of a transaction. -/
def beforeOf (controls : List Control) (token : String) : Option String :=
  (Keyed.find Prod.fst token (befores controls).reverse).map Prod.snd

def Frame.transaction (f : Frame φ) : Transaction φ := ⟨f.transactionId, f.trades, f.decisions⟩

def commitFrames (frames : List (Frame φ)) : List (Frame φ) :=
  frames.filter fun f => f.kind = .commit

def framed (frames : List (Frame φ)) : List String := (commitFrames frames).map Frame.transactionId

/-- The transactions told. -/
def told (frames : List (Frame φ)) : List (Transaction φ) :=
  (commitFrames frames).map Frame.transaction

theorem told_ids (frames : List (Frame φ)) :
    (told frames).map Transaction.transactionId = framed frames := by
  unfold told framed
  rw [List.map_map]
  rfl

theorem fenced_snoc (frames : List (Frame φ)) (f : Frame φ) : Fenced (frames ++ [f]) ↔
    Fenced frames ∨ f.kind = .endFence := by
  simp [Fenced, or_and_right, exists_or]

theorem commitFrames_snoc (frames : List (Frame φ)) (f : Frame φ) :
    commitFrames (frames ++ [f]) = commitFrames frames ++ if f.kind = .commit then [f] else [] := by
  unfold commitFrames
  rw [List.filter_append]
  by_cases h : f.kind = .commit <;> simp [h]

theorem framed_snoc (frames : List (Frame φ)) (f : Frame φ) :
    framed (frames ++ [f]) = framed frames ++ if f.kind = .commit then
    [f.transactionId] else [] := by
  unfold framed
  rw [commitFrames_snoc, List.map_append]
  split <;> rfl

theorem told_snoc (frames : List (Frame φ)) (f : Frame φ) :
    told (frames ++ [f]) = told frames ++ if f.kind = .commit then [f.transaction] else [] := by
  unfold told
  rw [commitFrames_snoc, List.map_append]
  split <;> rfl

/-- What a control finds in the files it is appended to. -/
def Control.Fits (controls : List Control) (frames : List (Frame φ)) : Control → Prop
  | .register writer => writer ∈ sourceWriters ∧ frames = []
  | .begin token writer => token ∉ begun controls ∧ writer ∈ registered controls ∧ Capturing frames
  | .beforeCommit token _ =>
    token ∈ begun controls ∧ token ∉ framed frames ∧ token ∉ rolled controls
  | .commitAck token cursor =>
    (∃ f ∈ frames, f.kind = .commit ∧ f.transactionId = token ∧ f.cursor = cursor) ∧
      token ∉ (acks controls).map Prod.fst ∧ ¬ Fenced frames
  | .rollbackAck token => token ∈ begun controls ∧ token ∉ framed frames ∧ token ∉ rolled controls
  | .ownerStop cursor => Fenced frames ∧ cursor = frames.length ∧ ∀ k, .ownerStop k ∉ controls
  | .ownerStart _ => False
  | .other _ => False

/-- What a frame of one kind finds there. -/
def Frame.Fits (controls : List Control) (frames : List (Frame φ)) (f : Frame φ) : FrameKind → Prop
  | .activation => frames = [] ∧ ∀ writer ∈ sourceWriters, writer ∈ registered controls
  | .commit =>
    Capturing frames ∧ f.transactionId ∈ begun controls ∧ f.transactionId ∉ framed frames ∧
      f.transactionId ∉ rolled controls ∧ f.commitBeforeUtc.isSome ∧
      f.commitBeforeUtc = beforeOf controls f.transactionId
  | .endFence =>
    Capturing frames ∧ (∀ token ∈ begun controls, token ∈ framed frames ∨ token ∈ rolled controls) ∧
      f.fence = some (drainFence sourceWriters frames.length)
  | .other _ => False

structure Setup.Fits (s : Setup φ) (controls : List Control)
    (frames : List (Frame φ)) (f : Frame φ) : Prop where
  synthetic : s.evidenceKind = "synthetic"
  version : f.version = 1
  binding : f.bindingSha256 = s.bindingSha256
  previous : f.previousCursor = frames.length
  cursor : f.cursor = frames.length + 1
  signature : f.signature = none
  kind : f.Fits controls frames f.kind

/-- The controls after OWNER_START and the frames, as appends that each
found what it was to find. -/
inductive Written (s : Setup φ) : List Control → List (Frame φ) → Prop
  | start : Written s [] []
  | control {controls : List Control} {frames : List (Frame φ)} (c : Control) :
      Written s controls frames → c.Fits controls frames → Written s (controls ++ [c]) frames
  | frame {controls : List Control} {frames : List (Frame φ)} (f : Frame φ) :
      Written s controls frames → s.Fits controls frames f → Written s controls (frames ++ [f])

section Written

variable {s : Setup φ} {controls : List Control} {frames : List (Frame φ)}

theorem begun_snoc (controls : List Control) (c : Control) :
    begun (controls ++ [c]) = begun controls ++ c.begins.toList := by
  unfold begun
  rw [List.filterMap_append]
  cases c <;> rfl

theorem registered_snoc (controls : List Control) (c : Control) :
    registered (controls ++ [c]) = registered controls ++ c.registers.toList := by
  unfold registered
  rw [List.filterMap_append]
  cases c <;> rfl

theorem rolled_snoc (controls : List Control) (c : Control) :
    rolled (controls ++ [c]) = rolled controls ++ c.rollsBack.toList := by
  unfold rolled
  rw [List.filterMap_append]
  cases c <;> rfl

theorem befores_snoc (controls : List Control) (c : Control) :
    befores (controls ++ [c]) = befores controls ++ c.announces.toList := by
  unfold befores
  rw [List.filterMap_append]
  cases c <;> rfl

theorem acks_snoc (controls : List Control) (c : Control) :
    acks (controls ++ [c]) = acks controls ++ c.acknowledges.toList := by
  unfold acks
  rw [List.filterMap_append]
  cases c <;> rfl

theorem Setup.Fits.open {f : Frame φ} (h : s.Fits controls frames f) : ¬ Fenced frames := by
  have hkind := h.kind
  cases hk : f.kind with
  | activation =>
    rw [hk] at hkind
    rw [hkind.1]
    rintro ⟨f, hf, -⟩
    exact List.not_mem_nil hf
  | commit =>
    rw [hk] at hkind
    exact hkind.1.2
  | endFence =>
    rw [hk] at hkind
    exact hkind.1.2
  | other kind =>
    rw [hk] at hkind
    exact hkind.elim

theorem Written.numbered (h : Written s controls frames) :
    frames.map Frame.cursor = List.range' 1 frames.length := by
  induction h with
  | start => rfl
  | control c _ _ ih => exact ih
  | frame f _ hf ih =>
    rw [List.map_append, ih, List.length_append, List.map_singleton, List.length_singleton,
      List.range'_concat, hf.cursor, Nat.one_mul, Nat.add_comm 1]

/-- A transaction told was begun and not rolled back, and is told once. -/
theorem Written.framed_begun (h : Written s controls frames) :
    (framed frames).Nodup ∧ ∀ token ∈ framed frames, token ∈ begun controls ∧
    token ∉ rolled controls := by
  induction h with
  | start => exact ⟨List.nodup_nil, fun t ht => (List.not_mem_nil ht).elim⟩
  | @control controls frames c _ hc ih =>
    refine ⟨ih.1, fun token ht => ?_⟩
    obtain ⟨hbegun, hrolled⟩ := ih.2 token ht
    rw [begun_snoc, rolled_snoc]
    refine ⟨List.mem_append_left _ hbegun, fun hmem => ?_⟩
    rcases List.mem_append.mp hmem with hmem | hmem
    · exact hrolled hmem
    · cases c with
      | rollbackAck t =>
        obtain rfl := List.mem_singleton.mp hmem
        exact hc.2.1 ht
      | _ => exact List.not_mem_nil hmem
  | @frame controls frames f _ hf ih =>
    rw [framed_snoc]
    have hkind := hf.kind
    split
    · next hk =>
      rw [hk] at hkind
      refine ⟨List.nodup_append.mpr ⟨ih.1, List.nodup_singleton _, fun t ht u hu => ?_⟩,
        fun token ht => ?_⟩
      · obtain rfl := List.mem_singleton.mp hu
        exact fun e => hkind.2.2.1 (e ▸ ht)
      · rcases List.mem_append.mp ht with ht | ht
        · exact ih.2 token ht
        · obtain rfl := List.mem_singleton.mp ht
          exact ⟨hkind.2.1, hkind.2.2.2.1⟩
    · rwa [List.append_nil]

/-- Behind END_FENCE nothing is in doubt. -/
theorem Written.settled (h : Written s controls frames) (hfenced : Fenced frames) :
    ∀ token ∈ begun controls, token ∈ framed frames ∨ token ∈ rolled controls := by
  induction h with
  | start =>
    obtain ⟨f, hf, -⟩ := hfenced
    exact (List.not_mem_nil hf).elim
  | @control controls frames c _ hc ih =>
    intro token ht
    rw [begun_snoc] at ht
    rw [rolled_snoc]
    rcases List.mem_append.mp ht with ht | ht
    · exact (ih hfenced token ht).imp_right (List.mem_append_left _)
    · cases c with
      | begin t writer => exact absurd hfenced hc.2.2.2
      | _ => exact (List.not_mem_nil ht).elim
  | @frame controls frames f _ hf _ =>
    have hkind := hf.kind
    rcases (fenced_snoc frames f).mp hfenced with hbefore | hk
    · exact absurd hbefore hf.open
    · rw [hk] at hkind
      rw [framed_snoc, hk, if_neg (by decide), List.append_nil]
      exact hkind.2.1

/-- END_FENCE is last, and names what is before it. -/
theorem Written.fence_last (h : Written s controls frames) {f : Frame φ}
    (hf : f ∈ frames) (hk : f.kind = .endFence) :
    frames.getLast? = some f ∧ f.fence = some (drainFence sourceWriters (frames.length - 1)) := by
  induction h with
  | start => exact (List.not_mem_nil hf).elim
  | control c _ _ ih => exact ih hf
  | @frame controls frames g _ hg _ =>
    rcases List.mem_append.mp hf with hf | hf
    · exact absurd ⟨f, hf, hk⟩ hg.open
    · obtain rfl := List.mem_singleton.mp hf
      have hkind := hg.kind
      rw [hk] at hkind
      rw [List.getLast?_concat, List.length_append, List.length_singleton, Nat.add_sub_cancel]
      exact ⟨rfl, hkind.2.2⟩

theorem Written.writers (h : Written s controls frames) :
    ∀ writer ∈ registered controls, writer ∈ sourceWriters := by
  induction h with
  | start => exact fun w hw => (List.not_mem_nil hw).elim
  | frame f _ _ ih => exact ih
  | @control controls frames c _ hc ih =>
    intro writer hw
    rw [registered_snoc] at hw
    rcases List.mem_append.mp hw with hw | hw
    · exact ih writer hw
    · cases c with
      | register w =>
        obtain rfl := List.mem_singleton.mp hw
        exact hc.1
      | _ => exact (List.not_mem_nil hw).elim

/-- ACTIVATION comes after both writers. -/
theorem Written.enrolled (h : Written s controls frames) (hne : frames ≠ []) :
    ∀ writer ∈ sourceWriters, writer ∈ registered controls := by
  induction h with
  | start => exact absurd rfl hne
  | control c _ _ ih =>
    intro writer hw
    rw [registered_snoc]
    exact List.mem_append_left _ (ih hne writer hw)
  | @frame controls frames f _ hf ih =>
    have hkind := hf.kind
    cases hk : f.kind with
    | activation =>
      rw [hk] at hkind
      exact hkind.2
    | commit =>
      rw [hk] at hkind
      exact ih hkind.1.1
    | endFence =>
      rw [hk] at hkind
      exact ih hkind.1.1
    | other kind =>
      rw [hk] at hkind
      exact hkind.elim

theorem Written.stopped (h : Written s controls frames) {cursor : Nat}
    (hc : Control.ownerStop cursor ∈ controls) : Fenced frames := by
  induction h with
  | start => exact (List.not_mem_nil hc).elim
  | frame f _ _ ih => exact (fenced_snoc _ f).mpr (.inl (ih hc))
  | control c _ hfits ih =>
    rcases List.mem_append.mp hc with hc | hc
    · exact ih hc
    · obtain rfl := List.mem_singleton.mp hc
      exact hfits.1

theorem Written.activated (h : Written s controls frames) {token : String}
    (ht : token ∈ begun controls) : frames ≠ [] := by
  induction h with
  | start => exact (List.not_mem_nil ht).elim
  | @control controls frames c _ hc ih =>
    rw [begun_snoc] at ht
    rcases List.mem_append.mp ht with ht | ht
    · exact ih ht
    · cases c with
      | begin t writer => exact hc.2.2.1
      | _ => exact (List.not_mem_nil ht).elim
  | frame f _ _ _ => simp

theorem Written.synthetic (h : Written s controls frames) (hne : frames ≠ []) :
    s.evidenceKind = "synthetic" := by
  induction h with
  | start => exact absurd rfl hne
  | control c _ _ ih => exact ih hne
  | frame f _ hf _ => exact hf.synthetic

/-- What is said of a transaction is said after its BEGIN. -/
theorem Written.announced (h : Written s controls frames) :
    (∀ token ∈ rolled controls, token ∈ begun controls) ∧
    ∀ a ∈ befores controls, a.1 ∈ begun controls := by
  induction h with
  | start => exact ⟨fun t ht => (List.not_mem_nil ht).elim, fun a ha => (List.not_mem_nil ha).elim⟩
  | frame f _ _ ih => exact ih
  | @control controls frames c _ hc ih =>
    rw [begun_snoc, rolled_snoc, befores_snoc]
    refine ⟨fun token ht => ?_, fun a ha => ?_⟩
    · rcases List.mem_append.mp ht with ht | ht
      · exact List.mem_append_left _ (ih.1 token ht)
      · cases c with
        | rollbackAck t =>
          obtain rfl := List.mem_singleton.mp ht
          exact List.mem_append_left _ hc.1
        | _ => exact (List.not_mem_nil ht).elim
    · rcases List.mem_append.mp ha with ha | ha
      · exact List.mem_append_left _ (ih.2 a ha)
      · cases c with
        | beforeCommit t before =>
          obtain rfl := List.mem_singleton.mp ha
          exact List.mem_append_left _ hc.1
        | _ => exact (List.not_mem_nil ha).elim

theorem Written.acknowledged (h : Written s controls frames) :
    ∀ a ∈ acks controls, a.1 ∈ framed frames := by
  induction h with
  | start => exact fun a ha => (List.not_mem_nil ha).elim
  | @control controls frames c _ hc ih =>
    intro a ha
    rw [acks_snoc] at ha
    rcases List.mem_append.mp ha with ha | ha
    · exact ih a ha
    · cases c with
      | commitAck token cursor =>
        obtain rfl := List.mem_singleton.mp ha
        obtain ⟨⟨f, hf, hk, rfl, -⟩, -⟩ := hc
        exact List.mem_map.mpr ⟨f, List.mem_filter.mpr ⟨hf, decide_eq_true hk⟩, rfl⟩
      | _ => exact (List.not_mem_nil ha).elim
  | @frame controls frames f _ hf ih =>
    intro a ha
    rw [framed_snoc]
    exact List.mem_append_left _ (ih a ha)

end Written

end Polycopy.Observation
