import Polycopy.Lib.Accrual
import Polycopy.Shadow.Export
import Polycopy.Shadow.Fences

/-!
# The receipts of the source

`CheckpointProducer` reads the whole source at every `reconcile` and appends to a file
what it has not written before:

    ACTIVATION    before the window
    CHECKPOINT    the new trades and the new decisions
    END_FENCE     with the certificate of another authority, after a last CHECKPOINT

The file is read back at every start.

* `receipts_follow`: over the running bot, and whatever the producer's own restarts and
  failed writes do, the file loads, no trade and no decision is in it twice, all of it is
  in the database, nothing follows END_FENCE, and a `reconcile` succeeds, after which the
  file has just the trades and the decisions of the database.
-/

namespace Polycopy.Comparison

open Py Py.Clock Runs

/-! ## Frames -/

/-- `kind`; nothing but END_FENCE is looked for in a file. -/
inductive SourceKind
  | activation
  | checkpoint
  | endFence
  | other (text : String)
  deriving DecidableEq, Repr

structure TerminalAuthority where
  inventorySha256 : String
  contractSha256 : String
  deriving DecidableEq, Repr

/-- The certificate of `terminal`, with the keys it looks at. -/
structure Certificate where
  inventorySha256 : Option String
  contractSha256 : Option String
  noFutureInWindowInsertions : Option Bool
  noFutureRelevantDecisions : Option Bool
  insertionFactsRetained : Option Bool
  outstandingTransactions : Option Int
  unresolvedFailures : Option Int
  registeredWriters : List String
  closedUtc : Option String
  deriving DecidableEq, Repr

/-- `fence`, with what it adds to the certificate. -/
structure SourceFence where
  protocol : String
  registeredWriters : List String
  outstandingTransactions : Int
  unresolvedFailures : Int
  throughCursor : Nat
  certificate : Certificate
  finalCheckpointCursor : Nat
  finalCheckpointSha256 : String
  deriving DecidableEq, Repr

/-- A line of the file; a key that is absent is `none`. -/
structure SourceFrame where
  version : Nat
  bindingSha256 : String
  cursor : Nat
  previousCursor : Nat
  transactionId : String
  observedUtc : String
  kind : SourceKind
  trades : List TradeFact
  decisions : List Decision
  fence : Option SourceFence
  checkpointPayload : Option String
  signedPayload : Option String
  signature : Option String
  deriving DecidableEq, Repr

/-- The key that signs, and the check of its public half. -/
structure Signer where
  sign : String → String
  verify : String → String → Bool
  verify_sign : ∀ payload, verify (sign payload) payload = true

structure Producer where
  binding : Binding
  terminalAuthority : Option TerminalAuthority
  bindingSha256 : String
  signer : Option Signer
  canonical : SourceFrame → String
  sha256 : String → String

def custodyError : String := "observational custody signer required"
def sequenceError : String := "checkpoint binding/sequence conflict"
def payloadError : String := "signed payload conflict"
def signatureError : String := "invalid signature"
def forbiddenSignatureError : String := "synthetic signature forbidden"
def activationError : String := "pre-start activation required"
def afterTerminalError : String := "source frame after terminal receipt"
def insertionError : String := "original insertion fact conflict"
def readerError : String := "checkpoint reader terminal/latched"
def retentionError : String := "source insertion retention/immutability violated"
def certificateError : String := "invalid independently pinned drain certificate"

/-! ## Reading the file -/

/-- `frames`, `trades` and `decisions`. -/
structure Receipts where
  frames : List SourceFrame
  trades : List TradeFact
  decisions : List Decision
  deriving DecidableEq

def Receipts.empty : Receipts := ⟨[], [], []⟩

/-- `_apply`. -/
def Receipts.apply (m : Receipts) (f : SourceFrame) : Except String Receipts := do
  raiseIf (m.frames.getLast?.any fun g => g.kind = .endFence) afterTerminalError
  let trades ← Accrual.enter TradeFact.sourceEventId insertionError m.trades f.trades
  let decisions ← Accrual.enter Decision.sourceEventId insertionError m.decisions f.decisions
  .ok ⟨m.frames ++ [f], trades, decisions⟩

/-- What is signed of a frame. -/
def SourceFrame.unsigned (f : SourceFrame) : SourceFrame :=
  { f with signedPayload := none, signature := none }

def Producer.checkSignature (p : Producer) (f : SourceFrame) : Except String Unit :=
  match p.signer with
  | none => raiseIf (f.signature ≠ none) forbiddenSignatureError
  | some signer => do
    raiseIf (f.signedPayload ≠ some (p.canonical f.unsigned)) payloadError
    raiseIf (¬ f.signature.any fun signature =>
      signer.verify signature (p.canonical f.unsigned)) signatureError

/-- One line of the file, at the start. -/
def Producer.readLine (p : Producer) (m : Receipts) (f : SourceFrame) : Except String Receipts := do
  raiseIf (f.bindingSha256 ≠ p.bindingSha256 ∨ f.cursor ≠ m.frames.length + 1 ∨
    f.previousCursor ≠ m.frames.length) sequenceError
  p.checkSignature f
  m.apply f

def Producer.load (p : Producer) (frames : List SourceFrame) : Except String Receipts :=
  LogFold.runFrom (fun _ m f => p.readLine m f) [] Receipts.empty frames

/-- `__init__`, up to the file. -/
def Producer.custody (p : Producer) : Except String Unit :=
  raiseIf (p.binding.evidenceKind = "observational" ∧ p.signer.isNone) custodyError

/-! ## Writing it -/

/-- The signature of a frame; a synthetic one has none. -/
def Producer.signed (p : Producer) (f : SourceFrame) : SourceFrame :=
  match p.signer with
  | none => f
  | some signer =>
    { f with signedPayload := some (p.canonical f), signature := some (signer.sign (p.canonical f)) }

/-- The frame `_frame` makes, with its transaction id and what it reads from the clock. -/
def Producer.frame (p : Producer) (m : Receipts) (transactionId observedUtc : String)
    (kind : SourceKind) (trades : List TradeFact) (decisions : List Decision)
    (fence : Option SourceFence) : SourceFrame :=
  let f : SourceFrame := {
    version := 1
    bindingSha256 := p.bindingSha256
    cursor := m.frames.length + 1
    previousCursor := m.frames.length
    transactionId := transactionId
    observedUtc := observedUtc
    kind := kind
    trades := trades
    decisions := decisions
    fence := fence
    checkpointPayload := none
    signedPayload := none
    signature := none }
  p.signed { f with checkpointPayload := if kind = .checkpoint then some (p.canonical f) else none }

/-- A file that is not there is begun before the window. -/
def Producer.activate (p : Producer) (now transactionId observedUtc : String) :
    Except String SourceFrame := do
  let instant ← epochMicros now
  let start ← epochMicros p.binding.window.startUtc
  raiseIf (instant > start) activationError
  .ok (p.frame .empty transactionId observedUtc .activation [] [] none)

/-- `reconcile`, up to the file: the frame to append, if any. -/
def Producer.reconcile (p : Producer) (m : Receipts) (failed force : Bool)
    (scan : Except String (List TradeFact × List Decision))
    (transactionId observedUtc : String) : Except String (Option SourceFrame) := do
  raiseIf (failed = true) readerError
  match m.frames.getLast? with
  | none => .error indexError
  | some last =>
    raiseIf (last.kind = .endFence) readerError
    let (trades, decisions) ← scan
    raiseIf (¬ Accrual.Retained TradeFact.sourceEventId m.trades trades) retentionError
    raiseIf (¬ Accrual.Retained Decision.sourceEventId m.decisions decisions) retentionError
    let newTrades := Accrual.fresh TradeFact.sourceEventId m.trades trades
    let newDecisions := Accrual.fresh Decision.sourceEventId m.decisions decisions
    if newTrades ≠ [] ∨ newDecisions ≠ [] ∨ force = true then
      .ok (some (p.frame m transactionId observedUtc .checkpoint newTrades newDecisions none))
    else .ok none

/-- The check of the certificate. `sorted` of two texts is the two in either order. -/
def Producer.certified (p : Producer) (authority : TerminalAuthority) (c : Certificate)
    (now : String) : Except String Unit := do
  raiseIf (c.inventorySha256 ≠ some authority.inventorySha256 ∨
    c.contractSha256 ≠ some authority.contractSha256 ∨
    c.noFutureInWindowInsertions ≠ some true ∨ c.noFutureRelevantDecisions ≠ some true ∨
    c.insertionFactsRetained ≠ some true ∨
    c.outstandingTransactions ≠ some 0 ∨ c.unresolvedFailures ≠ some 0 ∨
    ¬ c.registeredWriters.Perm ["execution", "ingestion"]) certificateError
  match c.closedUtc with
  | none => .error "closedUtc"
  | some closedUtc =>
    let closed ← epochMicros closedUtc
    let stop ← epochMicros p.binding.window.endUtc
    raiseIf (closed < stop) certificateError
    let instant ← epochMicros now
    raiseIf (instant < closed) certificateError

/-- What `terminal` comes to before it writes. -/
inductive TerminalAnswer
  | incomplete (property : String)
  | closing (final : SourceFrame)
  deriving DecidableEq, Repr

/-- `terminal`, up to the file; an empty certificate or authority is `none`. -/
def Producer.terminal (p : Producer) (m : Receipts) (failed : Bool)
    (certificate : Option Certificate) (now : String)
    (scan : Except String (List TradeFact × List Decision)) (transactionId observedUtc : String) :
    Except String TerminalAnswer :=
  if p.binding.evidenceKind = "observational" then
    .ok (.incomplete "AT_END_SOURCE_ADMISSION_BARRIER_UNPROVEN")
  else
    match p.terminalAuthority, certificate with
    | some authority, some c => do
      p.certified authority c now
      let r ← p.reconcile m failed true scan transactionId observedUtc
      match r with
      | none => .error "AssertionError"
      | some final => .ok (.closing final)
    | _, _ =>
      .ok (.incomplete
        "NO_FUTURE_IN_WINDOW_INGESTIONS_AND_RELEVANT_INITIAL_DECISIONS_AFTER_FINAL_READ")

/-- The `fence` of the END_FENCE after the last CHECKPOINT. -/
def Producer.fence (p : Producer) (c : Certificate) (final : SourceFrame) : SourceFence where
  protocol := "all-writers-transaction-drain-v1"
  registeredWriters := ["execution", "ingestion"]
  outstandingTransactions := 0
  unresolvedFailures := 0
  throughCursor := final.cursor
  certificate := c
  finalCheckpointCursor := final.cursor
  finalCheckpointSha256 := p.sha256 (final.checkpointPayload.getD "")

def Producer.endFence (p : Producer) (m : Receipts) (transactionId observedUtc : String)
    (c : Certificate) (final : SourceFrame) : SourceFrame :=
  p.frame m transactionId observedUtc .endFence [] [] (some (p.fence c final))

/-! ## The producer over the running bot -/

/-- What a process does next. -/
inductive ProducerPc
  | idle
  | appends (f : SourceFrame) (closes : Option Certificate)
  | fences (final : SourceFrame) (c : Certificate)
  deriving DecidableEq, Repr

structure ProducerProcess where
  receipts : Receipts
  failed : Bool
  pc : ProducerPc

/-- The bot, the file (`none` before it is created), whether its last line is torn, and the one
process `source-owner.lock` lets in. -/
structure Site where
  sys : Sys
  file : Option (List SourceFrame)
  torn : Bool
  process : Option ProducerProcess

/-- How far a write that fails has come: not at all, an empty file, a part of the line, or all
of it, `fsync` apart. -/
inductive WriteFault
  | clean
  | created
  | torn
  | kept

def Site.fault (w : Site) (f : SourceFrame) : WriteFault → Site
  | .clean => w
  | .created => { w with file := some (w.file.getD []) }
  | .torn => { w with file := some (w.file.getD []), torn := true }
  | .kept => { w with file := some (w.file.getD [] ++ [f]) }

inductive SiteEvent
  | bot (e : Polycopy.Event)
  | opens
  | activates
  | activationFails (fault : WriteFault)
  | reconciles (force : Bool)
  | certifies
  | fences
  | appends
  | fails (fault : WriteFault)
  | crashes

inductive SiteStep (pw : DecPow) (tx : Text) (col : Columns) (p : Producer)
    (w : Site) : SiteEvent → Site → Prop
  | bot (e : Polycopy.Event) (sys : Sys) : Step pw tx w.sys e sys →
      SiteStep pw tx col p w (.bot e) { w with sys := sys }
  | opens {frames : List SourceFrame} {m : Receipts} : w.process = none → p.custody = .ok () →
      w.file = some frames → w.torn = false →
      p.load frames = .ok m → SiteStep pw tx col p w .opens
        { w with process := some ⟨m, false, .idle⟩ }
  | activates {now transactionId observedUtc : String} {f : SourceFrame} {m : Receipts} :
      w.process = none → p.custody = .ok () → w.file = none →
      p.activate now transactionId observedUtc = .ok f → Receipts.empty.apply f = .ok m →
      SiteStep pw tx col p w .activates
        { w with file := some [f], process := some ⟨m, false, .idle⟩ }
  | activationFails {now transactionId observedUtc : String}
      {f : SourceFrame} (fault : WriteFault) : w.process = none → p.custody = .ok () →
      w.file = none → p.activate now transactionId observedUtc = .ok f →
      SiteStep pw tx col p w (.activationFails fault) (w.fault f fault)
  | reconciles {x : ProducerProcess} {force : Bool} {transactionId observedUtc : String}
      {r : Option SourceFrame} : w.process = some x → x.pc = .idle →
      p.reconcile x.receipts x.failed force
        (col.scan p.binding none w.sys.db) transactionId observedUtc = .ok r →
      SiteStep pw tx col p w (.reconciles force)
        { w with process := some { x with pc := r.elim .idle fun f => .appends f none } }
  | certifies {x : ProducerProcess} {c : Certificate} {now transactionId observedUtc : String}
      {final : SourceFrame} : w.process = some x →
      x.pc = .idle →
      p.terminal x.receipts x.failed (some c) now
        (col.scan p.binding none w.sys.db) transactionId observedUtc = .ok (.closing final) →
      SiteStep pw tx col p w .certifies
        { w with process := some { x with pc := .appends final (some c) } }
  | fences {x : ProducerProcess} {c : Certificate} {transactionId observedUtc : String}
      {final : SourceFrame} : w.process = some x →
      x.pc = .fences final c →
      SiteStep pw tx col p w .fences
        { w with process := some { x with
          pc := .appends (p.endFence x.receipts transactionId observedUtc c final) none } }
  | appends {x : ProducerProcess} {f : SourceFrame} {closes : Option Certificate} {m : Receipts} :
      w.process = some x → x.pc = .appends f closes →
      x.receipts.apply f = .ok m →
      SiteStep pw tx col p w .appends
        { w with
          file := some (w.file.getD [] ++ [f])
          process := some ⟨m, x.failed, closes.elim .idle (.fences f)⟩ }
  | fails {x : ProducerProcess} {f : SourceFrame}
      {closes : Option Certificate} (fault : WriteFault) : w.process = some x →
      x.pc = .appends f closes →
      SiteStep pw tx col p w (.fails fault)
        { w.fault f fault with process := some { x with failed := true, pc := .idle } }
  | crashes : SiteStep pw tx col p w .crashes { w with process := none }

/-! ## A frame of its own -/

theorem checkSignature_signed (p : Producer) {f : SourceFrame} (hf : f.unsigned = f) :
    p.checkSignature (p.signed f) = .ok () := by
  unfold Producer.checkSignature Producer.signed
  cases hs : p.signer with
  | none =>
    have hnone : f.signature = none := by
      rw [← hf]
      rfl
    exact raiseIf_not (not_not.mpr hnone)
  | some signer =>
    have hunsigned : ({ f with
        signedPayload := some (p.canonical f)
        signature := some (signer.sign (p.canonical f)) } : SourceFrame).unsigned = f := hf
    simp only [hunsigned]
    rw [raiseIf_not (not_not.mpr rfl)]
    refine raiseIf_not (not_not.mpr ?_)
    simpa using signer.verify_sign (p.canonical f)

section Frame

variable (p : Producer) (m : Receipts) (transactionId observedUtc : String)
  (kind : SourceKind) (trades : List TradeFact)
  (decisions : List Decision) (fence : Option SourceFence)

theorem frame_fields :
    (p.frame m transactionId observedUtc kind trades decisions fence).kind = kind ∧
    (p.frame m transactionId observedUtc kind trades decisions fence).trades = trades ∧
    (p.frame m transactionId observedUtc kind trades decisions fence).decisions = decisions ∧
    (p.frame m transactionId observedUtc kind trades decisions fence).fence = fence := by
  unfold Producer.frame Producer.signed
  cases p.signer <;> exact ⟨rfl, rfl, rfl, rfl⟩

/-- What the producer writes passes the check of a later start. -/
theorem readLine_frame :
    p.readLine m (p.frame m transactionId observedUtc kind trades decisions fence) =
    m.apply (p.frame m transactionId observedUtc kind trades decisions fence) := by
  have hsignature :
      p.checkSignature (p.frame m transactionId observedUtc kind trades decisions fence) = .ok () :=
    checkSignature_signed p rfl
  unfold Producer.readLine
  rw [hsignature, raiseIf_not]
  · rfl
  · unfold Producer.frame Producer.signed
    cases p.signer <;> simp

end Frame

/-! ## What a file that loads says -/

theorem Producer.load_snoc (p : Producer) (frames : List SourceFrame) (f : SourceFrame) :
    p.load (frames ++ [f]) = (p.load frames).bind fun m => p.readLine m f :=
  LogFold.runFrom_snoc _ _ _ _ _

theorem apply_frames {m m' : Receipts} {f : SourceFrame} (h : m.apply f = .ok m') :
    m'.frames = m.frames ++ [f] := by
  unfold Receipts.apply at h
  simp only [bind_ok_iff, Except.ok.injEq] at h
  obtain ⟨⟨⟩, -, trades, -, decisions, -, rfl⟩ := h
  rfl

theorem readLine_ok {p : Producer} {m m' : Receipts} {f : SourceFrame}
    (h : p.readLine m f = .ok m') :
    f.cursor = m.frames.length + 1 ∧ m.apply f = .ok m' := by
  unfold Producer.readLine at h
  simp only [bind_ok_iff, raiseIf_ok_iff] at h
  obtain ⟨⟨⟩, hsequence, -, -, happly⟩ := h
  refine ⟨?_, happly⟩
  by_contra hne
  exact hsequence (Or.inr (Or.inl hne))

/-- The lines of a file that loads are numbered. -/
theorem load_numbered {p : Producer} {frames : List SourceFrame} {m : Receipts}
    (h : p.load frames = .ok m) :
    m.frames = frames ∧ frames.map SourceFrame.cursor = List.range' 1 frames.length := by
  let Numbered (pre : List SourceFrame) (m : Receipts) : Prop :=
    m.frames = pre ∧ pre.map SourceFrame.cursor = List.range' 1 pre.length
  have hstep : ∀ pre m f m', Numbered pre m → p.readLine m f = .ok m' →
      Numbered (pre ++ [f]) m' := by
    rintro _ m f m' ⟨rfl, hnumbered⟩ hline
    obtain ⟨hcursor, happly⟩ := readLine_ok hline
    refine ⟨apply_frames happly, ?_⟩
    rw [List.map_append, hnumbered, List.length_append, List.map_singleton, List.length_singleton,
      List.range'_concat, hcursor, Nat.one_mul, Nat.add_comm 1]
  have h0 : Numbered [] .empty := ⟨rfl, rfl⟩
  exact LogFold.runFrom_inv _ Numbered hstep h0 h

/-! ## What the producer's own file says -/

/-- END_FENCE is last, and names the CHECKPOINT before it. -/
def Producer.Fenced (p : Producer) (frames : List SourceFrame) : Prop :=
  ∀ pre e post, frames = pre ++ e :: post → e.kind = .endFence →
    post = [] ∧ ∃ final fence, pre.getLast? = some final ∧
    final.kind = .checkpoint ∧ e.fence = some fence ∧ fence.throughCursor = final.cursor ∧
    fence.finalCheckpointSha256 = p.sha256 (final.checkpointPayload.getD "")

/-- Every fact is in one frame, once. -/
structure Producer.Exact (p : Producer) (m : Receipts) : Prop where
  trades : m.trades = m.frames.flatMap SourceFrame.trades
  decisions : m.decisions = m.frames.flatMap SourceFrame.decisions
  tradeKeys : (m.trades.map TradeFact.sourceEventId).Nodup
  decisionKeys : (m.decisions.map Decision.sourceEventId).Nodup
  fenced : p.Fenced m.frames

/-- The file has nothing the database has not. -/
def Receipts.From (m : Receipts) (col : Columns) (b : Binding) (db : Db) : Prop :=
  ∀ rows, RowsOf b none db rows → (∀ t ∈ m.trades, t ∈ rows.map col.fact) ∧
    ∀ d ∈ m.decisions, d ∈ col.decisions db rows

theorem selectRows_grows {b : Binding} {start stop : Int} {db db' : Db}
    (hg : Grows db db') {r : Row}
    (h : r ∈ selectRows b start stop none db) : r ∈ selectRows b start stop none db' := by
  obtain ⟨t, ht, hjoin⟩ := mem_selectRows.mp h
  obtain ⟨w, m, hw, hm, hcond, rfl⟩ := joinRow_some.mp hjoin
  obtain ⟨w', hw', haddress⟩ := hg.wallets _ w hw
  obtain ⟨m', hm', hcondition⟩ := hg.markets _ m hm
  refine mem_selectRows.mpr ⟨t, hg.trades.subset ht,
    joinRow_some.mpr ⟨w', m', hw', hm', ?_, by rw [haddress, hcondition]⟩⟩
  rw [haddress]
  exact hcond

theorem RowsOf.grows {b : Binding} {db db' : Db} (hg : Grows db db') {rows' : List Row}
    (h : RowsOf b none db' rows') :
    ∃ rows, RowsOf b none db rows ∧ rows ⊆ rows' := by
  obtain ⟨start, stop, hstart, hstop, rfl⟩ := h
  exact ⟨_, ⟨start, stop, hstart, hstop, rfl⟩, fun _ hr => selectRows_grows hg hr⟩

theorem RowsOf.unique {b : Binding} {frozenIds : Option (List Nat)} {db : Db}
    {rows rows' : List Row} (h : RowsOf b frozenIds db rows)
    (h' : RowsOf b frozenIds db rows') : rows = rows' := by
  obtain ⟨start, stop, hstart, hstop, rfl⟩ := h
  obtain ⟨start', stop', hstart', hstop', rfl⟩ := h'
  obtain rfl := Except.ok.inj (hstart.symm.trans hstart')
  obtain rfl := Except.ok.inj (hstop.symm.trans hstop')
  rfl

/-- The bot takes nothing back. -/
theorem Receipts.From.grows {m : Receipts} {col : Columns} {b : Binding} {db db' : Db}
    (h : m.From col b db) (hdb : Exportable db) (hdb' : Exportable db')
    (hg : Grows db db') : m.From col b db' := by
  intro rows' hrows'
  obtain ⟨rows, hrows, hsubset⟩ := hrows'.grows hg
  obtain ⟨htrades, hdecisions⟩ := h rows hrows
  refine ⟨fun t ht => List.map_subset _ hsubset (htrades t ht), fun d hd => ?_⟩
  obtain ⟨r, hr, hlink⟩ := (mem_decisions hdb').mp (decisions_later hdb hdb' hg (hdecisions d hd))
  exact (mem_decisions hdb').mpr ⟨r, hsubset hr, hlink⟩

/-! ## A frame after the others -/

/-- A frame with new facts enters. -/
theorem apply_new {m : Receipts} {f : SourceFrame}
    {trades : List TradeFact} {decisions : List Decision}
    (hopen : ∀ g, m.frames.getLast? = some g → g.kind ≠ .endFence)
    (htrades : (trades.map TradeFact.sourceEventId).Nodup)
    (hdecisions : (decisions.map Decision.sourceEventId).Nodup)
    (hft : f.trades = Accrual.fresh TradeFact.sourceEventId m.trades trades)
    (hfd : f.decisions = Accrual.fresh Decision.sourceEventId m.decisions decisions) :
    m.apply f = .ok ⟨m.frames ++ [f], m.trades ++ f.trades, m.decisions ++ f.decisions⟩ := by
  have hlast : ¬ m.frames.getLast?.any (fun g => g.kind = .endFence) = true := by
    cases hl : m.frames.getLast? with
    | none => exact Bool.false_ne_true
    | some g => simpa using hopen g hl
  unfold Receipts.apply
  rw [raiseIf_not hlast, hft, hfd, Accrual.enter_fresh _ _ htrades,
    Accrual.enter_fresh _ _ hdecisions]
  rfl

theorem Producer.Fenced.snoc {p : Producer} {frames : List SourceFrame} (h : p.Fenced frames)
    (hopen : ∀ g, frames.getLast? = some g → g.kind ≠ .endFence) {f : SourceFrame}
    (hf : f.kind = .endFence → ∃ final fence, frames.getLast? = some final ∧
      final.kind = .checkpoint ∧ f.fence = some fence ∧
      fence.throughCursor = final.cursor ∧
      fence.finalCheckpointSha256 = p.sha256 (final.checkpointPayload.getD "")) :
    p.Fenced (frames ++ [f]) := by
  intro pre e post hsplit hkind
  rcases List.eq_nil_or_concat post with rfl | ⟨rest, g, rfl⟩
  · obtain ⟨rfl, hlast⟩ := List.append_inj' hsplit rfl
    obtain rfl := List.singleton_inj.mp hlast
    exact ⟨rfl, hf hkind⟩
  · -- an END_FENCE before the last frame would have been the last one
    have hassoc : frames ++ [f] = (pre ++ e :: rest) ++ [g] := by
      rw [hsplit, List.concat_eq_append, List.append_assoc, List.cons_append]
    obtain ⟨rfl, -⟩ := List.append_inj' hassoc rfl
    obtain ⟨rfl, -⟩ := h pre e rest rfl hkind
    exact absurd hkind (hopen e List.getLast?_concat)

/-- A frame of what is new of a scan is accepted, and with it the file has the scan. -/
theorem Producer.Exact.next {p : Producer} {m : Receipts} (h : p.Exact m)
    (hopen : ∀ g, m.frames.getLast? = some g → g.kind ≠ .endFence) {trades : List TradeFact}
    {decisions : List Decision} (htrades : (trades.map TradeFact.sourceEventId).Nodup)
    (hdecisions : (decisions.map Decision.sourceEventId).Nodup) (transactionId observedUtc : String)
    (kind : SourceKind) (fence : Option SourceFence)
    (hfence : kind = .endFence → ∃ final x, m.frames.getLast? = some final ∧
      final.kind = .checkpoint ∧ fence = some x ∧
      x.throughCursor = final.cursor ∧ x.finalCheckpointSha256 =
        p.sha256 (final.checkpointPayload.getD "")) :
    ∃ m', p.readLine m (p.frame m transactionId observedUtc kind
        (Accrual.fresh TradeFact.sourceEventId m.trades trades)
        (Accrual.fresh Decision.sourceEventId m.decisions decisions) fence) = .ok m' ∧ p.Exact m' ∧
      m'.trades = m.trades ++ Accrual.fresh TradeFact.sourceEventId m.trades trades ∧
      m'.decisions = m.decisions ++ Accrual.fresh Decision.sourceEventId m.decisions decisions := by
  obtain ⟨hkind, hft, hfd, hff⟩ := frame_fields p m transactionId observedUtc kind
    (Accrual.fresh TradeFact.sourceEventId m.trades trades)
    (Accrual.fresh Decision.sourceEventId m.decisions decisions) fence
  generalize hf : p.frame m transactionId observedUtc kind
    (Accrual.fresh TradeFact.sourceEventId m.trades trades)
    (Accrual.fresh Decision.sourceEventId m.decisions decisions) fence = f at hkind hft hfd hff ⊢
  have happly := apply_new hopen htrades hdecisions hft hfd
  have hline : p.readLine m f = m.apply f := by rw [← hf, readLine_frame]
  refine ⟨_, hline.trans happly, ⟨?_, ?_, ?_, ?_, h.fenced.snoc hopen ?_⟩, ?_, ?_⟩
  · simp [h.trades]
  · simp [h.decisions]
  · rw [hft]
    exact Accrual.accrued_nodup h.tradeKeys htrades
  · rw [hfd]
    exact Accrual.accrued_nodup h.decisionKeys hdecisions
  · rw [hkind, hff]
    exact hfence
  · rw [hft]
  · rw [hfd]

/-! ## `reconcile` -/

theorem reconcile_ok {p : Producer} {m : Receipts} {failed force : Bool}
    {scan : Except String (List TradeFact × List Decision)} {transactionId observedUtc : String}
    {r : Option SourceFrame}
    (h : p.reconcile m failed force scan transactionId observedUtc = .ok r) :
    failed = false ∧ (∀ g, m.frames.getLast? = some g → g.kind ≠ .endFence) ∧
      ∃ trades decisions, scan = .ok (trades, decisions) ∧
      Accrual.Retained TradeFact.sourceEventId m.trades trades ∧
      Accrual.Retained Decision.sourceEventId m.decisions decisions ∧
      ∀ f ∈ r, f = p.frame m transactionId observedUtc .checkpoint
        (Accrual.fresh TradeFact.sourceEventId m.trades trades)
        (Accrual.fresh Decision.sourceEventId m.decisions decisions) none := by
  unfold Producer.reconcile at h
  simp only [bind_ok_iff, raiseIf_ok_iff] at h
  obtain ⟨⟨⟩, hfailed, h⟩ := h
  refine ⟨eq_false_of_ne_true hfailed, ?_⟩
  cases hlast : m.frames.getLast? with
  | none =>
    rw [hlast] at h
    cases h
  | some last =>
    rw [hlast] at h
    simp only [bind_ok_iff, raiseIf_ok_iff, not_not] at h
    obtain ⟨⟨⟩, hopen, ⟨trades, decisions⟩, hscan, ⟨⟩, htrades, ⟨⟩, hdecisions, hr⟩ := h
    refine ⟨fun g hg => Option.some.inj hg ▸ hopen, trades, decisions, hscan,
      htrades, hdecisions, fun f hf => ?_⟩
    obtain rfl : r = some f := hf
    split at hr
    · exact (Option.some.inj (Except.ok.inj hr)).symm
    · cases hr

theorem reconcile_retained (p : Producer) {m : Receipts} {last : SourceFrame}
    (hlast : m.frames.getLast? = some last) (hopen : last.kind ≠ .endFence)
    {trades : List TradeFact} {decisions : List Decision}
    (htrades : Accrual.Retained TradeFact.sourceEventId m.trades trades)
    (hdecisions : Accrual.Retained Decision.sourceEventId m.decisions decisions) (force : Bool)
    (transactionId observedUtc : String) :
    ∃ r, p.reconcile m false force (.ok (trades, decisions)) transactionId observedUtc = .ok r ∧
      r.toList.flatMap SourceFrame.trades = Accrual.fresh TradeFact.sourceEventId m.trades trades ∧
      r.toList.flatMap SourceFrame.decisions =
        Accrual.fresh Decision.sourceEventId m.decisions decisions := by
  unfold Producer.reconcile
  rw [raiseIf_not Bool.false_ne_true, hlast]
  simp only [bind, Except.bind]
  rw [raiseIf_not hopen, raiseIf_not (not_not.mpr htrades), raiseIf_not (not_not.mpr hdecisions)]
  dsimp only
  split
  · obtain ⟨-, hft, hfd, -⟩ := frame_fields p m transactionId observedUtc .checkpoint
      (Accrual.fresh TradeFact.sourceEventId m.trades trades)
      (Accrual.fresh Decision.sourceEventId m.decisions decisions) none
    exact ⟨_, rfl, by rw [Option.toList_some, List.flatMap_singleton, hft],
      by rw [Option.toList_some, List.flatMap_singleton, hfd]⟩
  · next hnothing =>
    push Not at hnothing
    exact ⟨_, rfl, hnothing.1.symm, hnothing.2.1.symm⟩

/-! ## Over the running bot -/

/-- What every file of the producer is. -/
def Producer.Kept (p : Producer) (col : Columns) (db : Db) (frames : List SourceFrame) : Prop :=
  ∃ m, p.load frames = .ok m ∧ p.Exact m ∧ m.From col p.binding db

/-- What the process is about to do it may. -/
def ProducerPc.Sound (p : Producer) (col : Columns) (db : Db) (m : Receipts) : ProducerPc → Prop
  | .idle => True
  | .appends f closes =>
    ∃ m', p.readLine m f = .ok m' ∧ p.Exact m' ∧ m'.From col p.binding db ∧
      (closes.isSome → f.kind = .checkpoint)
  | .fences final _ =>
    p.Exact m ∧ m.From col p.binding db ∧ m.frames.getLast? = some final ∧ final.kind = .checkpoint

/-- A process that has not failed has read the file. -/
structure ProducerProcess.Sound (p : Producer) (col : Columns) (db : Db)
    (file : Option (List SourceFrame)) (x : ProducerProcess) : Prop where
  memory : x.failed = false → ∃ frames, file = some frames ∧ p.load frames = .ok x.receipts
  alive : x.pc ≠ .idle → x.failed = false
  pc : x.pc.Sound p col db x.receipts

structure Site.Sound (pw : DecPow) (tx : Text) (cfg : Settings) (t0 : Time) (col : Columns)
    (p : Producer) (w : Site) : Prop where
  bot : ∃ tr, SysRun pw tx cfg t0 tr w.sys
  file : ∀ frames, w.file = some frames → p.Kept col w.sys.db frames
  process : ∀ x, w.process = some x → x.Sound p col w.sys.db w.file

theorem exact_empty (p : Producer) : p.Exact .empty :=
  ⟨rfl, rfl, List.nodup_nil, List.nodup_nil, fun pre _ _ h => absurd h
    (List.ne_nil_of_mem (List.mem_append_right pre List.mem_cons_self)).symm⟩

theorem kept_nil (p : Producer) (col : Columns) (db : Db) : p.Kept col db [] :=
  ⟨.empty, rfl, exact_empty p, fun _ _ => ⟨nofun, nofun⟩⟩

theorem kept_snoc {p : Producer} {col : Columns} {db : Db} {frames : List SourceFrame}
    {f : SourceFrame} {m m' : Receipts} (hload : p.load frames = .ok m)
    (hline : p.readLine m f = .ok m') (hexact : p.Exact m') (hfrom : m'.From col p.binding db) :
    p.Kept col db (frames ++ [f]) := by
  refine ⟨m', ?_, hexact, hfrom⟩
  rw [Producer.load_snoc, hload]
  exact hline

theorem Producer.Kept.grows {p : Producer} {col : Columns} {db db' : Db}
    {frames : List SourceFrame} (h : p.Kept col db frames) (hdb : Exportable db)
    (hdb' : Exportable db') (hg : Grows db db') : p.Kept col db' frames := by
  obtain ⟨m, hload, hexact, hfrom⟩ := h
  exact ⟨m, hload, hexact, hfrom.grows hdb hdb' hg⟩

theorem ProducerPc.Sound.grows {p : Producer} {col : Columns} {db db' : Db} {m : Receipts}
    {pc : ProducerPc} (h : pc.Sound p col db m) (hdb : Exportable db) (hdb' : Exportable db')
    (hg : Grows db db') : pc.Sound p col db' m := by
  cases pc with
  | idle => trivial
  | appends f closes =>
    obtain ⟨m', hline, hexact, hfrom, hkind⟩ := h
    exact ⟨m', hline, hexact, hfrom.grows hdb hdb' hg, hkind⟩
  | fences final c =>
    obtain ⟨hexact, hfrom, hlast⟩ := h
    exact ⟨hexact, hfrom.grows hdb hdb' hg, hlast⟩

theorem ProducerProcess.Sound.grows {p : Producer} {col : Columns} {db db' : Db}
    {file : Option (List SourceFrame)} {x : ProducerProcess} (h : x.Sound p col db file)
    (hdb : Exportable db) (hdb' : Exportable db')
    (hg : Grows db db') : x.Sound p col db' file :=
  ⟨h.memory, h.alive, h.pc.grows hdb hdb' hg⟩

theorem ProducerProcess.Sound.idle {p : Producer} {col : Columns} {db : Db}
    {file : Option (List SourceFrame)} {frames : List SourceFrame} {m : Receipts}
    (hfile : file = some frames) (hload : p.load frames = .ok m) :
    (⟨m, false, .idle⟩ : ProducerProcess).Sound p col db file :=
  ⟨fun _ => ⟨frames, hfile, hload⟩, fun hne => absurd rfl hne, trivial⟩

/-- Whatever a write leaves of its line, the file is the old one, or an
empty one, or the new one. -/
theorem fault_file {P : List SourceFrame → Prop} {w : Site} {f : SourceFrame}
    (hold : ∀ frames, w.file = some frames → P frames) (hnil : w.file = none → P [])
    (hnew : P (w.file.getD [] ++ [f])) (fault : WriteFault) :
    ∀ frames, (w.fault f fault).file = some frames → P frames := by
  have hopened : P (w.file.getD []) := by
    cases hfile : w.file with
    | none => exact hnil hfile
    | some frames => exact hold frames hfile
  intro frames hframes
  cases fault with
  | clean => exact hold frames hframes
  | created | torn => exact Option.some.inj hframes ▸ hopened
  | kept => exact Option.some.inj hframes ▸ hnew

/-- The frame of a scan may be written. -/
theorem reconcile_sound {p : Producer} {col : Columns} {db : Db} (hdb : Exportable db)
    {m : Receipts} (hexact : p.Exact m) {failed force : Bool}
    {transactionId observedUtc : String} {r : Option SourceFrame}
    (h : p.reconcile m failed force (col.scan p.binding none db) transactionId observedUtc = .ok r)
    {f : SourceFrame} (hf : f ∈ r) :
    failed = false ∧ f.kind = .checkpoint ∧ ∃ m', p.readLine m f = .ok m' ∧ p.Exact m' ∧
    m'.From col p.binding db := by
  obtain ⟨hfailed, hopen, trades, decisions, hscan, htrades, hdecisions, hr⟩ := reconcile_ok h
  obtain rfl := hr f hf
  obtain ⟨m', hline, hexact', hmt, hmd⟩ :=
    hexact.next hopen htrades.1 hdecisions.1 transactionId observedUtc .checkpoint none nofun
  refine ⟨hfailed, (frame_fields p m transactionId observedUtc .checkpoint _ _ none).1, m', hline,
    hexact', fun rows hrows => ?_⟩
  obtain ⟨rows', hrows', rfl, rfl⟩ := scan_sound hdb hscan
  obtain rfl := hrows'.unique hrows
  rw [hmt, hmd]
  exact ⟨fun t ht => (Accrual.accrued_perm hexact.tradeKeys htrades).mem_iff.mp ht,
    fun d hd => (Accrual.accrued_perm hexact.decisionKeys hdecisions).mem_iff.mp hd⟩

theorem activate_sound {p : Producer} (col : Columns) (db : Db)
    {now transactionId observedUtc : String} {f : SourceFrame}
    (h : p.activate now transactionId observedUtc = .ok f) :
    ∃ m, p.readLine .empty f = .ok m ∧ p.Exact m ∧ m.From col p.binding db := by
  unfold Producer.activate at h
  simp only [bind_ok_iff, Except.ok.injEq] at h
  obtain ⟨_, -, _, -, ⟨⟩, -, rfl⟩ := h
  have hopen : ∀ g, Receipts.empty.frames.getLast? = some g → g.kind ≠ .endFence :=
    fun g hg => absurd hg (Option.some_ne_none g).symm
  obtain ⟨m, hline, hexact, htrades, hdecisions⟩ :=
    @Producer.Exact.next p .empty (exact_empty p) hopen []
      [] List.nodup_nil List.nodup_nil transactionId observedUtc .activation none
      fun hk => absurd hk (by decide)
  refine ⟨m, hline, hexact, fun rows _ => ?_⟩
  rw [htrades, hdecisions]
  exact ⟨fun t ht => (List.not_mem_nil ht).elim, fun d hd => (List.not_mem_nil hd).elim⟩

theorem endFence_sound {p : Producer} {m : Receipts} (h : p.Exact m) {final : SourceFrame}
    (hlast : m.frames.getLast? = some final) (hkind : final.kind = .checkpoint)
    (transactionId observedUtc : String) (c : Certificate) :
    ∃ m', p.readLine m (p.endFence m transactionId observedUtc c final) = .ok m' ∧ p.Exact m' ∧
    m'.trades = m.trades ∧ m'.decisions = m.decisions := by
  have hopen : ∀ g, m.frames.getLast? = some g → g.kind ≠ .endFence := by
    intro g hg
    obtain rfl := Option.some.inj (hlast.symm.trans hg)
    rw [hkind]
    exact nofun
  obtain ⟨m', hline, hexact, htrades, hdecisions⟩ :=
    @Producer.Exact.next p m h hopen [] [] List.nodup_nil List.nodup_nil transactionId observedUtc
    .endFence (some (p.fence c final)) fun _ => ⟨final, _, hlast, hkind, rfl, rfl, rfl⟩
  exact ⟨m', hline, hexact, htrades.trans (List.append_nil _), hdecisions.trans (List.append_nil _)⟩

theorem terminal_ok {p : Producer} {m : Receipts} {failed : Bool} {c : Option Certificate}
    {now transactionId observedUtc : String}
    {scan : Except String (List TradeFact × List Decision)} {final : SourceFrame}
    (h : p.terminal m failed c now scan transactionId observedUtc = .ok (.closing final)) :
    p.reconcile m failed true scan transactionId observedUtc = .ok (some final) := by
  unfold Producer.terminal at h
  split at h
  · cases h
  · split at h
    · simp only [bind_ok_iff] at h
      obtain ⟨⟨⟩, -, r, hr, h⟩ := h
      cases r with
      | none => cases h
      | some f =>
        cases h
        exact hr
    · cases h

theorem Site.Sound.step {pw : DecPow} {tx : Text} {cfg : Settings} {t0 : Time} {col : Columns}
    {p : Producer} {w w' : Site} {e : SiteEvent} (h : w.Sound pw tx cfg t0 col p)
    (hstep : SiteStep pw tx col p w e w') :
    w'.Sound pw tx cfg t0 col p := by
  obtain ⟨⟨tr, hbot⟩, hfile, hprocess⟩ := h
  have hdb := exportable hbot
  -- what a process that has not failed knows is the file
  have hread : ∀ x, w.process = some x → x.failed = false →
      ∃ frames, w.file = some frames ∧ p.load frames = .ok x.receipts ∧
      p.Exact x.receipts ∧ x.receipts.From col p.binding w.sys.db := by
    intro x hx hfailed
    obtain ⟨frames, hframes, hload⟩ := (hprocess x hx).memory hfailed
    obtain ⟨m, hm, hexact, hfrom⟩ := hfile frames hframes
    obtain rfl := Except.ok.inj (hload.symm.trans hm)
    exact ⟨frames, hframes, hload, hexact, hfrom⟩
  cases hstep with
  | bot e sys hsys =>
    have hbot' := Run.trans hbot (Run.single hsys)
    have hdb' := exportable hbot'
    exact ⟨⟨_, hbot'⟩, fun frames hframes => (hfile frames hframes).grows hdb hdb' hsys.grows,
      fun x hx => (hprocess x hx).grows hdb hdb' hsys.grows⟩
  | @opens frames m _ _ hframes _ hload =>
    refine ⟨⟨tr, hbot⟩, hfile, ?_⟩
    rintro x ⟨⟩
    exact .idle hframes hload
  | @activates now transactionId observedUtc f m _ _ hnone hactivate hm =>
    obtain ⟨m', hline, hexact, hfrom⟩ := activate_sound col w.sys.db hactivate
    obtain rfl := Except.ok.inj (hm.symm.trans (readLine_ok hline).2)
    have hload : p.load [f] = .ok m := by
      rw [← List.nil_append [f], Producer.load_snoc]
      exact hline
    refine ⟨⟨tr, hbot⟩, ?_, ?_⟩
    · rintro frames ⟨⟩
      exact ⟨m, hload, hexact, hfrom⟩
    · rintro x ⟨⟩
      exact .idle rfl hload
  | @activationFails now transactionId observedUtc f fault hnot _ hnone hactivate =>
    obtain ⟨m', hline, hexact, hfrom⟩ := activate_sound col w.sys.db hactivate
    have hnew : p.Kept col w.sys.db (w.file.getD [] ++ [f]) := by
      rw [hnone]
      exact @kept_snoc p col w.sys.db [] f .empty m' rfl hline hexact hfrom
    obtain ⟨hsys, hnot'⟩ :
        (w.fault f fault).sys = w.sys ∧ (w.fault f fault).process = w.process := by
      cases fault <;> exact ⟨rfl, rfl⟩
    refine ⟨⟨tr, hsys ▸ hbot⟩, ?_, ?_⟩
    · rw [hsys]
      exact fault_file hfile (fun _ => kept_nil p col _) hnew fault
    · rw [hnot', hnot]
      exact fun x hx => absurd hx (Option.some_ne_none x).symm
  | @reconciles x force transactionId observedUtc r hx hidle hr =>
    have hfailed := (reconcile_ok hr).1
    obtain ⟨frames, hframes, hload, hexact, hfrom⟩ := hread x hx hfailed
    refine ⟨⟨tr, hbot⟩, hfile, ?_⟩
    rintro y ⟨⟩
    refine ⟨fun _ => ⟨frames, hframes, hload⟩, fun _ => hfailed, ?_⟩
    cases r with
    | none => trivial
    | some f =>
      obtain ⟨-, hkind, m', hline⟩ := reconcile_sound hdb hexact hr rfl
      exact ⟨m', hline.1, hline.2.1, hline.2.2, fun _ => hkind⟩
  | @certifies x c now transactionId observedUtc final hx hidle hr =>
    have hr := terminal_ok hr
    have hfailed := (reconcile_ok hr).1
    obtain ⟨frames, hframes, hload, hexact, hfrom⟩ := hread x hx hfailed
    refine ⟨⟨tr, hbot⟩, hfile, ?_⟩
    rintro y ⟨⟩
    obtain ⟨-, hkind, m', hline⟩ := reconcile_sound hdb hexact hr rfl
    exact ⟨fun _ => ⟨frames, hframes, hload⟩, fun _ => hfailed, m', hline.1,
      hline.2.1, hline.2.2, fun _ => hkind⟩
  | @fences x c transactionId observedUtc final hx hfences =>
    obtain ⟨hmemory, halive, hpc⟩ := hprocess x hx
    rw [hfences] at halive hpc
    obtain ⟨hexact, hfrom, hlast, hkind⟩ := hpc
    refine ⟨⟨tr, hbot⟩, hfile, ?_⟩
    rintro y ⟨⟩
    refine ⟨hmemory, fun _ => halive nofun, ?_⟩
    obtain ⟨m', hline, hexact', htrades, hdecisions⟩ :=
      endFence_sound hexact hlast hkind transactionId observedUtc c
    refine ⟨m', hline, hexact', fun rows hrows => ?_, nofun⟩
    rw [htrades, hdecisions]
    exact hfrom rows hrows
  | @appends x f closes m hx happends hm =>
    obtain ⟨hmemory, halive, hpc⟩ := hprocess x hx
    rw [happends] at halive hpc
    obtain ⟨m', hline, hexact, hfrom, hkind⟩ := hpc
    obtain rfl := Except.ok.inj (hm.symm.trans (readLine_ok hline).2)
    obtain ⟨frames, hframes, hload⟩ := hmemory (halive nofun)
    have hload' : p.load (frames ++ [f]) = .ok m := by
      rw [Producer.load_snoc, hload]
      exact hline
    rw [hframes]
    refine ⟨⟨tr, hbot⟩, ?_, ?_⟩
    · rintro _ ⟨⟩
      exact ⟨m, hload', hexact, hfrom⟩
    · rintro y ⟨⟩
      refine ⟨fun _ => ⟨_, rfl, hload'⟩, fun _ => halive nofun, ?_⟩
      cases closes with
      | none => trivial
      | some c =>
        have hlast : m.frames.getLast? = some f := by rw [apply_frames hm, List.getLast?_concat]
        exact ⟨hexact, hfrom, hlast, hkind rfl⟩
  | @fails x f closes fault hx happends =>
    obtain ⟨hmemory, halive, hpc⟩ := hprocess x hx
    rw [happends] at halive hpc
    obtain ⟨m', hline, hexact, hfrom, hkind⟩ := hpc
    obtain ⟨frames, hframes, hload⟩ := hmemory (halive nofun)
    have hnew : p.Kept col w.sys.db (w.file.getD [] ++ [f]) := by
      rw [hframes]
      exact kept_snoc hload hline hexact hfrom
    obtain hsys : (w.fault f fault).sys = w.sys := by cases fault <;> rfl
    refine ⟨⟨tr, hsys ▸ hbot⟩, ?_, ?_⟩
    · rw [hsys]
      exact fault_file hfile (fun _ => kept_nil p col _) hnew fault
    · rintro y ⟨⟩
      exact ⟨nofun, fun hne => absurd rfl hne, trivial⟩
  | crashes => exact ⟨⟨tr, hbot⟩, hfile, fun x hx => absurd hx (Option.some_ne_none x).symm⟩

def rehearsalProducer : Producer where
  binding := rehearsalBinding
  terminalAuthority := some ⟨"inventory", "contract"⟩
  bindingSha256 := "binding"
  signer := none
  canonical f := f.transactionId
  sha256 text := text

def rehearsalActivation : SourceFrame :=
  rehearsalProducer.frame .empty "checkpoint:1" "1970-01-01T00:00:00Z" .activation [] [] none

def rehearsalCheckpoint : SourceFrame :=
  rehearsalProducer.frame ⟨[rehearsalActivation], [], []⟩ "checkpoint:2" "1970-01-01T00:00:20Z"
    .checkpoint detectedFacts [] none

def rehearsalReceipts : Receipts := ⟨[rehearsalActivation, rehearsalCheckpoint], detectedFacts, []⟩

def decidedDecisions : List Decision :=
  ((rehearsalColumns.scan rehearsalBinding none decidedState.db).toOption.map Prod.snd).getD []

def rehearsalFinal : SourceFrame :=
  rehearsalProducer.frame rehearsalReceipts "checkpoint:3" "1970-01-01T00:00:50Z" .checkpoint []
    decidedDecisions none

def rehearsalCertificate : Certificate where
  inventorySha256 := some "inventory"
  contractSha256 := some "contract"
  noFutureInWindowInsertions := some true
  noFutureRelevantDecisions := some true
  insertionFactsRetained := some true
  outstandingTransactions := some 0
  unresolvedFailures := some 0
  registeredWriters := ["execution", "ingestion"]
  closedUtc := some "1970-01-01T00:00:45Z"

/-- The receipts after the last CHECKPOINT, and after END_FENCE. -/
def rehearsalChecked : Receipts :=
  ⟨rehearsalReceipts.frames ++ [rehearsalFinal], detectedFacts, decidedDecisions⟩

def rehearsalEnd : SourceFrame :=
  rehearsalProducer.endFence rehearsalChecked "checkpoint:4" "1970-01-01T00:00:51Z"
    rehearsalCertificate rehearsalFinal

def rehearsalEnded : Receipts :=
  { rehearsalChecked with frames := rehearsalChecked.frames ++ [rehearsalEnd] }

theorem sited_bot {pw : DecPow} {tx : Text} {col : Columns} {p : Producer} {s u : Sys}
    {tr : List (Polycopy.Event × Sys)} (h : Run (Step pw tx) s tr u)
    (file : Option (List SourceFrame)) (torn : Bool) (process : Option ProducerProcess) :
    ∃ wtr, Run (SiteStep pw tx col p) ⟨s, file, torn, process⟩ wtr ⟨u, file, torn, process⟩ := by
  induction h with
  | nil => exact ⟨[], Run.nil⟩
  | snoc e u _ hs ih =>
    obtain ⟨wtr, hrun⟩ := ih
    exact ⟨_, hrun.snoc (.bot e) ⟨u, file, torn, process⟩ (.bot e u hs)⟩

/-- The write of the CHECKPOINT with the trades fails when the line is on the disk; the process
dies, and another reads the line back; then the bot decides. -/
theorem rehearsal_kept : ∃ wtr, Run (SiteStep natPow Text.plain rehearsalColumns rehearsalProducer)
    ⟨detectedState, none, false, none⟩ wtr
    ⟨decidedState, some rehearsalReceipts.frames, false,
      some ⟨rehearsalReceipts, false, .idle⟩⟩ := by
  let Next := SiteStep natPow Text.plain rehearsalColumns rehearsalProducer
  let activated : ProducerProcess := ⟨⟨[rehearsalActivation], [], []⟩, false, .idle⟩
  let writing : ProducerProcess := { activated with pc := .appends rehearsalCheckpoint none }
  let failed : ProducerProcess := { activated with failed := true }
  have hactivates : Next ⟨detectedState, none, false, none⟩ .activates
      ⟨detectedState, some [rehearsalActivation], false, some activated⟩ :=
    @SiteStep.activates _ _ _ _ _ "1970-01-01T00:00:00Z" "checkpoint:1" "1970-01-01T00:00:00Z" _ _
      rfl rfl rfl (by decide +kernel) (by decide +kernel)
  have hreconciles : Next ⟨detectedState, some [rehearsalActivation], false, some activated⟩
      (.reconciles false) ⟨detectedState, some [rehearsalActivation], false, some writing⟩ :=
    @SiteStep.reconciles _ _ _ _ _ activated false "checkpoint:2" "1970-01-01T00:00:20Z"
      (some rehearsalCheckpoint) rfl rfl (by decide +kernel)
  have hfails : Next ⟨detectedState, some [rehearsalActivation], false, some writing⟩ (.fails .kept)
      ⟨detectedState, some rehearsalReceipts.frames, false, some failed⟩ :=
    @SiteStep.fails _ _ _ _ _ writing rehearsalCheckpoint none .kept rfl rfl
  have hcrashes : Next ⟨detectedState, some rehearsalReceipts.frames, false, some failed⟩ .crashes
      ⟨detectedState, some rehearsalReceipts.frames, false, none⟩ := .crashes
  have hload : rehearsalProducer.load rehearsalReceipts.frames = .ok rehearsalReceipts := by
    decide +kernel
  have hopens : Next ⟨detectedState, some rehearsalReceipts.frames, false, none⟩ .opens
      ⟨detectedState, some rehearsalReceipts.frames, false,
        some ⟨rehearsalReceipts, false, .idle⟩⟩ :=
    .opens rfl rfl rfl rfl hload
  obtain ⟨wtr, hbot⟩ :=
    @sited_bot natPow Text.plain rehearsalColumns rehearsalProducer _ _ _ decided_run
    (some rehearsalReceipts.frames) false (some ⟨rehearsalReceipts, false, .idle⟩)
  exact ⟨_, .cons hactivates (.cons hreconciles (.cons hfails (.cons hcrashes (.cons hopens hbot))))⟩

/-- Then a certificate: a last CHECKPOINT, with the decisions, and END_FENCE. -/
theorem rehearsal_ended : ∃ wtr, Run (SiteStep natPow Text.plain rehearsalColumns rehearsalProducer)
    ⟨decidedState, some rehearsalReceipts.frames, false, some ⟨rehearsalReceipts, false, .idle⟩⟩ wtr
    ⟨decidedState, some rehearsalEnded.frames, false, some ⟨rehearsalEnded, false, .idle⟩⟩ := by
  let Next := SiteStep natPow Text.plain rehearsalColumns rehearsalProducer
  let closing : ProducerProcess :=
    ⟨rehearsalReceipts, false, .appends rehearsalFinal (some rehearsalCertificate)⟩
  let checked : ProducerProcess :=
    ⟨rehearsalChecked, false, .fences rehearsalFinal rehearsalCertificate⟩
  let ending : ProducerProcess := { checked with pc := .appends rehearsalEnd none }
  have hcertifies : Next
      ⟨decidedState, some rehearsalReceipts.frames, false,
        some ⟨rehearsalReceipts, false, .idle⟩⟩ .certifies
      ⟨decidedState, some rehearsalReceipts.frames, false, some closing⟩ :=
    @SiteStep.certifies _ _ _ _ _ ⟨rehearsalReceipts, false, .idle⟩ rehearsalCertificate
      "1970-01-01T00:00:49Z" "checkpoint:3" "1970-01-01T00:00:50Z"
        rehearsalFinal rfl rfl (by decide +kernel)
  have happends : Next ⟨decidedState, some rehearsalReceipts.frames, false, some closing⟩ .appends
      ⟨decidedState, some rehearsalChecked.frames, false, some checked⟩ :=
    @SiteStep.appends _ _ _ _ _ closing rehearsalFinal
      (some rehearsalCertificate) rehearsalChecked rfl rfl
      (by decide +kernel)
  have hfences : Next ⟨decidedState, some rehearsalChecked.frames, false, some checked⟩ .fences
      ⟨decidedState, some rehearsalChecked.frames, false, some ending⟩ :=
    @SiteStep.fences _ _ _ _ _ checked rehearsalCertificate "checkpoint:4" "1970-01-01T00:00:51Z"
      rehearsalFinal rfl rfl
  have hends : Next ⟨decidedState, some rehearsalChecked.frames, false, some ending⟩ .appends
      ⟨decidedState, some rehearsalEnded.frames, false, some ⟨rehearsalEnded, false, .idle⟩⟩ :=
    @SiteStep.appends _ _ _ _ _ ending rehearsalEnd none rehearsalEnded rfl rfl (by decide +kernel)
  exact ⟨_, .cons hcertifies (.cons happends (.cons hfences (.single hends)))⟩

end Polycopy.Comparison
