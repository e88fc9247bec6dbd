import Mathlib.Data.Finset.Card
import Polycopy.Lib.LogFold
import Polycopy.Lib.Run
import Polycopy.Shadow.Population

/-!
# The decision drain

`FrozenDrain` waits for the initial decision on each trade of a frozen population.
Every `step` scans the source and appends one frame to a journal:

    PENDING             no decision yet
    DECISION_RECORDED   for good
    CAPTURE_ERROR       what was pending when the source contradicted itself

* A journal that loads is one story (`load_story`): one population throughout, a
  recorded decision in every later frame, the counts those of the map, and an end at
  the first frame that is COMPLETE or FAILED.
* What the drain appends it accepts (`append_valid`): no frame of its own makes a later
  load fail.
* Over an honest source, in every order of scans, new decisions and restarts, the drain
  never fails by itself, and a scan completes it just where every trade of the
  population is decided, with the decisions of the source (`drain_honest`).
-/

namespace Polycopy.Comparison

open Py Py.Clock Runs
open Fence (truthy)

/-! ## Frames -/

/-- The audit of a decision, `sourceAudit`. -/
structure SourceAudit where
  recordId : Nat
  action : String
  createdUtc : String
  context : String
  deriving DecidableEq, Repr

/-- The initial decision on a trade. -/
structure Decision where
  sourceEventId : String
  paperRecordId : Nat
  signalRecordId : Option Nat
  decisionUtc : Option String
  rejectionReason : Option String
  sourceIngestedUtc : String
  sourceAudit : Option SourceAudit
  deriving DecidableEq, Repr

inductive DecisionState
  | recorded
  | noInitialDecisionExpected
  | pending
  | captureError
  deriving DecidableEq, Repr

/-- What `perId` has of an event. -/
structure Terminal where
  event : String
  state : DecisionState
  decision : Option Decision
  deriving DecidableEq, Repr

/-- `perId`, a `dict` by the event: the order of its keys does not show. -/
structure PerId where
  entries : List Terminal
  distinct : (entries.map Terminal.event).Nodup
  deriving DecidableEq

def PerId.get (m : PerId) (event : String) : Option Terminal :=
  Keyed.find Terminal.event event m.entries

def PerId.set (m : PerId) (t : Terminal) : PerId :=
  ⟨Keyed.put Terminal.event t m.entries, Keyed.put_nodup _ m.distinct⟩

/-- A change of states and decisions. -/
def PerId.map (m : PerId) (f : Terminal → Terminal) (hf : ∀ t, (f t).event = t.event) : PerId where
  entries := m.entries.map f
  distinct := by
    rw [List.map_map, show Terminal.event ∘ f = Terminal.event from funext hf]
    exact m.distinct

/-- How many entries are in each state. -/
structure DrainCounts where
  recorded : Nat
  noInitialDecisionExpected : Nat
  pending : Nat
  captureError : Nat
  deriving DecidableEq, Repr

def PerId.count (m : PerId) (state : DecisionState) : Nat :=
  m.entries.countP fun t => t.state = state

def PerId.counts (m : PerId) : DrainCounts where
  recorded := m.count .recorded
  noInitialDecisionExpected := m.count .noInitialDecisionExpected
  pending := m.count .pending
  captureError := m.count .captureError

/-- `counts['PENDING'] == counts['CAPTURE_ERROR'] == 0`. -/
def DrainCounts.complete (c : DrainCounts) : Bool := c.pending = 0 ∧ c.captureError = 0

def DrainCounts.sum (c : DrainCounts) : Nat :=
  c.recorded + c.noInitialDecisionExpected + c.pending + c.captureError

inductive DrainState
  | failed
  | complete
  | draining
  deriving DecidableEq, Repr

structure DrainQuery where
  observedUtc : String
  bindingSha256 : String
  frozenIds : Option (List Nat)
  tradesSha256 : String
  decisionsSha256 : String
  tradeCount : Nat
  decisionCount : Nat
  isolation : String
  sourceSQLCheckpoint : Option SqlCheckpoint
  deriving DecidableEq, Repr

structure Frame where
  bindingSha256 : String
  cursor : Nat
  previousSha256 : Option String
  observedUtc : String
  frozenIds : List Nat
  frozenIdsSha256 : String
  sourceFacts : List TradeFact
  sourceFactsSha256 : String
  perId : PerId
  perIdSha256 : String
  counts : DrainCounts
  error : Option String
  state : DrainState
  query : DrainQuery
  comparisonEligible : Bool
  incompleteProperty : Option String
  signature : Option String
  deriving DecidableEq

/-- The digests, the signature of a frame and its check, and `_population_proof`. -/
structure Drain where
  binding : Binding
  postgres : Bool
  hashBinding : Binding → String
  hashFrame : Frame → String
  hashFacts : List TradeFact → String
  hashIds : List Nat → String
  hashPerId : PerId → String
  hashDecisions : List Decision → String
  sign : Frame → Option String
  verify : Frame → Except String Unit
  verify_sign : ∀ f : Frame, verify { f with signature := sign f } = .ok ()
  populationProof : List TradeFact → Except String (Bool × Option String)

/-- A read-only drain by itself proves nothing about the admission of the source. -/
def standaloneProof (_ : List TradeFact) : Except String (Bool × Option String) :=
  .ok (false, some "AT_END_SOURCE_ADMISSION_BARRIER_UNPROVEN")

/-! ## The check of a frame -/

def drainChainError : String := "drain binding/chain conflict"
def drainDigestError : String := "drain source-fact digest conflict"
def drainIdentityError : String := "drain population identity conflict"
def drainMapError : String := "drain exact per-ID map required"
def drainEquationError : String := "drain completeness equation/digest conflict"
def drainNoDecisionError : String := "actual source has no proven terminal no-decision path"
def drainFactError : String := "decision fact required"
def drainStateError : String := "drain state/equation conflict"
def drainEligibleError : String := "unproven population cannot become comparison eligible"
def drainTerminalError : String := "drain terminal transition"
def drainFrozenError : String := "frozen population cannot change"
def drainDecisionError : String := "original decision cannot change/disappear"
def drainEndError : String := "at-end freeze cannot precede original inclusive end"
def drainTimeoutError : String := "only an active pending drain can time out"
def safetyTimeout : String := "SAFETY_TIMEOUT_INCOMPLETE"
def sourceViolated : String := "SOURCE_INSERTION_RETENTION_OR_IMMUTABILITY_VIOLATED"
def decisionLost : String := "INITIAL_DECISION_RETENTION_OR_CONFLICT"
def decisionOutside : String := "DECISION_OUTSIDE_FROZEN_SET"
def decisionConflict : String := "INITIAL_DECISION_CONFLICT"

/-- The state a frame of these counts has. -/
def drainState (error : Option String) (counts : DrainCounts) : DrainState :=
  if truthy error then .failed else if counts.complete then .complete else .draining

/-- The check of each entry, one after another. -/
def checkTerminals : List Terminal → Except String Unit
  | [] => .ok ()
  | t :: rest => do
    raiseIf (t.state = .noInitialDecisionExpected) drainNoDecisionError
    raiseIf (t.state = .recorded ∧ ¬ ∃ d ∈ t.decision, d.sourceEventId = t.event ∧
      d.decisionUtc.isSome) drainFactError
    checkTerminals rest

/-- The check against the frame before. -/
def checkPrevious (previous frame : Frame) : Except String Unit := do
  raiseIf (previous.state ≠ .draining) drainTerminalError
  raiseIf (frame.frozenIds ≠ previous.frozenIds ∨
    frame.sourceFacts ≠ previous.sourceFacts) drainFrozenError
  raiseIf (∃ old ∈ previous.perId.entries, old.state = .recorded ∧
    frame.perId.get old.event ≠ some old) drainDecisionError

/-- `_validate` of a frame that is to have this cursor and follow this frame. -/
def Drain.validateAt (d : Drain) (cursor : Nat) (previous : Option Frame)
    (frame : Frame) : Except String Unit := do
  raiseIf (frame.bindingSha256 ≠ d.hashBinding d.binding ∨ frame.cursor ≠ cursor ∨
    frame.previousSha256 ≠ previous.map d.hashFrame) drainChainError
  d.verify frame
  raiseIf (frame.frozenIdsSha256 ≠ d.hashIds frame.frozenIds ∨
    frame.sourceFactsSha256 ≠ d.hashFacts frame.sourceFacts) drainDigestError
  raiseIf (frame.sourceFacts.map TradeFact.sourceRecordId ≠ frame.frozenIds ∨
    ¬ (frame.sourceFacts.map TradeFact.sourceRecordId).Nodup ∨
    ¬ (frame.sourceFacts.map TradeFact.sourceEventId).Nodup) drainIdentityError
  raiseIf ((frame.perId.entries.map Terminal.event).toFinset ≠
    (frame.sourceFacts.map TradeFact.sourceEventId).toFinset) drainMapError
  raiseIf (frame.counts ≠ frame.perId.counts ∨ frame.perId.counts.sum ≠ frame.frozenIds.length ∨
    frame.perIdSha256 ≠ d.hashPerId frame.perId) drainEquationError
  checkTerminals frame.perId.entries
  raiseIf (frame.state ≠ drainState frame.error frame.perId.counts) drainStateError
  let (eligible, missing) ← d.populationProof frame.sourceFacts
  raiseIf (frame.comparisonEligible ≠
      (eligible && frame.perId.counts.complete && !truthy frame.error) ∨
    frame.incompleteProperty ≠ missing) drainEligibleError
  match previous with
  | none => .ok ()
  | some previous => checkPrevious previous frame

/-- `_validate`, after the frames there are. -/
def Drain.validate (d : Drain) (frames : List Frame) (frame : Frame) : Except String Unit :=
  d.validateAt (frames.length + 1) frames.getLast? frame

/-- `__init__`: the lines of the journal, each checked against those before it. -/
def Drain.load (d : Drain) (frames : List Frame) : Except String Unit :=
  LogFold.runFrom (fun pre _ frame => d.validate pre frame) [] () frames

/-! ## Writing one -/

/-- What is pending when the source has failed. -/
def Terminal.capture (t : Terminal) : Terminal :=
  if t.state = .pending then ⟨t.event, .captureError, none⟩ else t

theorem Terminal.capture_event (t : Terminal) : t.capture.event = t.event := by
  unfold Terminal.capture
  split <;> rfl

/-- What `_append` makes of `per_id`. -/
def PerId.captured (m : PerId) (error : Option String) : PerId :=
  if truthy error ∧ error ≠ some safetyTimeout then m.map Terminal.capture Terminal.capture_event
  else m

/-- The frame `_append` makes, before it is signed. -/
def Drain.unsigned (d : Drain) (frames : List Frame) (observedUtc : String) (facts : List TradeFact)
    (perId : PerId) (query : DrainQuery) (error : Option String)
    (proof : Bool × Option String) : Frame where
  bindingSha256 := d.hashBinding d.binding
  cursor := frames.length + 1
  previousSha256 := frames.getLast?.map d.hashFrame
  observedUtc := observedUtc
  frozenIds := facts.map TradeFact.sourceRecordId
  frozenIdsSha256 := d.hashIds (facts.map TradeFact.sourceRecordId)
  sourceFacts := facts
  sourceFactsSha256 := d.hashFacts facts
  perId := perId
  perIdSha256 := d.hashPerId perId
  counts := perId.counts
  error := error
  state := drainState error perId.counts
  query := query
  comparisonEligible := proof.1 && perId.counts.complete && !truthy error
  incompleteProperty := proof.2
  signature := none

def Drain.signed (d : Drain) (frames : List Frame) (observedUtc : String) (facts : List TradeFact)
    (perId : PerId) (query : DrainQuery) (error : Option String)
    (proof : Bool × Option String) : Frame :=
  let frame := d.unsigned frames observedUtc facts perId query error proof
  { frame with signature := d.sign frame }

/-- `_append`, up to the file. -/
def Drain.append (d : Drain) (frames : List Frame) (observedUtc : String) (facts : List TradeFact)
    (perId : PerId) (query : DrainQuery)
    (error : Option String) : Except String (List Frame) := do
  let proof ← d.populationProof facts
  let frame := d.signed frames observedUtc facts (perId.captured error) query error proof
  d.validate frames frame
  .ok (frames ++ [frame])

/-- The decisions of a scan, one after another, with the error the first bad one ends them in. -/
def recordDecisions (m : PerId) : List Decision → PerId × Option String
  | [] => (m, none)
  | decision :: rest =>
    match m.get decision.sourceEventId with
    | none => (m, some decisionOutside)
    | some old =>
      if old.decision ≠ none ∧ old.decision ≠ some decision then (m, some decisionConflict)
      else recordDecisions (if decision.decisionUtc.isSome then
        m.set ⟨decision.sourceEventId, .recorded, some decision⟩ else m) rest

/-- `current_decisions`: of two decisions on one event the later one. -/
def currentDecision (decisions : List Decision) (event : String) : Option Decision :=
  decisions.reverse.find? fun decision => decision.sourceEventId = event

/-- `{event: PENDING}` of the population. -/
def pendingPerId (facts : List TradeFact) : PerId :=
  facts.foldl (fun m t => m.set ⟨t.sourceEventId, .pending, none⟩) ⟨[], List.nodup_nil⟩

/-- The map a step starts from. -/
def startPerId (frames : List Frame) (facts : List TradeFact) : PerId :=
  (frames.getLast?.map Frame.perId).getD (pendingPerId facts)

/-- What a scan gives: the trades, the decisions, and `last_checkpoint`. -/
structure Scan where
  trades : List TradeFact
  decisions : List Decision
  checkpoint : Option SqlCheckpoint

/-- `step`, with what it reads from the clock: before the scan, after it, and for the frame. -/
def Drain.step (d : Drain) (frames : List Frame) (now queriedUtc observedUtc : String)
    (scan : Except String Scan) : Except String (List Frame) :=
  if frames.getLast?.any (fun f => f.state ≠ .draining) then .ok frames
  else do
    let instant ← epochMicros now
    let stop ← epochMicros d.binding.window.endUtc
    raiseIf (instant < stop) drainEndError
    let previous := frames.getLast?
    let s ← scan
    let query : DrainQuery := {
      observedUtc := queriedUtc
      bindingSha256 := d.hashBinding d.binding
      frozenIds := previous.map Frame.frozenIds
      tradesSha256 := d.hashFacts s.trades
      decisionsSha256 := d.hashDecisions s.decisions
      tradeCount := s.trades.length
      decisionCount := s.decisions.length
      isolation := if d.postgres then "REPEATABLE_READ_READ_ONLY" else "SQLITE_READ_ONLY"
      sourceSQLCheckpoint := s.checkpoint }
    let facts := (previous.map Frame.sourceFacts).getD s.trades
    let perId := startPerId frames s.trades
    if previous.isSome ∧ s.trades ≠ facts then
      d.append frames observedUtc facts perId query (some sourceViolated)
    else if ∃ t ∈ perId.entries, t.decision.isSome ∧
      currentDecision s.decisions t.event ≠ t.decision then
      d.append frames observedUtc facts perId query (some decisionLost)
    else
      let r := recordDecisions perId s.decisions
      d.append frames observedUtc facts r.1 query r.2

/-- `timeout`. -/
def Drain.timeout (d : Drain) (frames : List Frame) (observedUtc : String) :
    Except String (List Frame) :=
  match frames.getLast? with
  | none => .error drainTimeoutError
  | some f =>
    if f.state ≠ .draining then .error drainTimeoutError
    else d.append frames observedUtc f.sourceFacts f.perId f.query (some safetyTimeout)

/-! ## What a frame has passed -/

/-- A frame by itself: one entry for each trade of the population, counted, and no decision
but on its own trade. -/
structure Drain.Balanced (d : Drain) (f : Frame) : Prop where
  ids : f.sourceFacts.map TradeFact.sourceRecordId = f.frozenIds
  idsDistinct : (f.sourceFacts.map TradeFact.sourceRecordId).Nodup
  eventsDistinct : (f.sourceFacts.map TradeFact.sourceEventId).Nodup
  events : (f.perId.entries.map Terminal.event).toFinset =
    (f.sourceFacts.map TradeFact.sourceEventId).toFinset
  counts : f.counts = f.perId.counts
  sum : f.perId.counts.sum = f.frozenIds.length
  terminals : ∀ t ∈ f.perId.entries, t.state ≠ .noInitialDecisionExpected ∧
    (t.state = .recorded → ∃ decision ∈ t.decision, decision.sourceEventId = t.event ∧
      decision.decisionUtc.isSome)
  state : f.state = drainState f.error f.perId.counts
  proof : ∃ eligible, d.populationProof f.sourceFacts = .ok (eligible, f.incompleteProperty) ∧
    f.comparisonEligible = (eligible && f.perId.counts.complete && !truthy f.error)

/-- A frame after another: the population and the recorded decisions are the same. -/
structure Follows (f g : Frame) : Prop where
  open_ : f.state = .draining
  ids : g.frozenIds = f.frozenIds
  facts : g.sourceFacts = f.sourceFacts
  recorded : ∀ old ∈ f.perId.entries, old.state = .recorded → g.perId.get old.event = some old

/-- Its place in the journal, its digests and its signature. -/
structure Drain.Linked (d : Drain) (cursor : Nat) (previous : Option Frame) (f : Frame) : Prop where
  binding : f.bindingSha256 = d.hashBinding d.binding
  cursor : f.cursor = cursor
  previous : f.previousSha256 = previous.map d.hashFrame
  verified : d.verify f = .ok ()
  ids : f.frozenIdsSha256 = d.hashIds f.frozenIds
  facts : f.sourceFactsSha256 = d.hashFacts f.sourceFacts
  perId : f.perIdSha256 = d.hashPerId f.perId

theorem checkTerminals_ok {l : List Terminal} : checkTerminals l = .ok () ↔
    ∀ t ∈ l, t.state ≠ .noInitialDecisionExpected ∧
      (t.state = .recorded → ∃ decision ∈ t.decision, decision.sourceEventId = t.event ∧
        decision.decisionUtc.isSome) := by
  induction l with
  | nil => exact ⟨fun _ t ht => (List.not_mem_nil ht).elim, fun _ => rfl⟩
  | cons t l ih =>
    unfold checkTerminals
    rw [List.forall_mem_cons, ← ih]
    simp only [bind_ok_iff, raiseIf_ok_iff, not_and, not_not, ne_eq]
    constructor
    · rintro ⟨⟨⟩, hstate, ⟨⟩, hfact, hrest⟩
      exact ⟨⟨hstate, hfact⟩, hrest⟩
    · rintro ⟨⟨hstate, hfact⟩, hrest⟩
      exact ⟨(), hstate, (), hfact, hrest⟩

theorem checkPrevious_ok {f g : Frame} : checkPrevious f g = .ok () ↔ Follows f g := by
  unfold checkPrevious
  simp only [bind_ok_iff, raiseIf_ok_iff, not_or, not_not, not_exists, not_and, ne_eq]
  constructor
  · rintro ⟨⟨⟩, hopen, ⟨⟩, ⟨hids, hfacts⟩, hrecorded⟩
    exact ⟨hopen, hids, hfacts, hrecorded⟩
  · intro h
    exact ⟨(), h.open_, (), ⟨h.ids, h.facts⟩, h.recorded⟩

theorem validateAt_ok {d : Drain} {cursor : Nat} {before : Option Frame} {f : Frame} :
    d.validateAt cursor before f = .ok () ↔ d.Linked cursor before f ∧ d.Balanced f ∧
    ∀ previous, before = some previous → Follows previous f := by
  have hlast : (match before with
      | none => .ok ()
      | some previous =>
        checkPrevious previous f) = Except.ok () ↔
          ∀ previous, before = some previous → Follows previous f := by
    cases before with
    | none => exact ⟨fun _ => nofun, fun _ => rfl⟩
    | some previous =>
      exact checkPrevious_ok.trans ⟨fun h _ he => Option.some.inj he ▸ h, fun h => h previous rfl⟩
  unfold Drain.validateAt
  simp only [bind_ok_iff, raiseIf_ok_iff, not_or, not_not, ne_eq]
  constructor
  · rintro ⟨⟨⟩, ⟨hbinding, hcursor, hprevious⟩, ⟨⟩, hverified, ⟨⟩, ⟨hidsSha, hfactsSha⟩, ⟨⟩,
      ⟨hids, hidsDistinct, heventsDistinct⟩, ⟨⟩, hevents,
      ⟨⟩, ⟨hcounts, hsum, hperIdSha⟩, ⟨⟩, hterminals, ⟨⟩, hstate, ⟨eligible, missing⟩, hproof, ⟨⟩,
      ⟨heligible, hmissing⟩, hfollows⟩
    exact ⟨⟨hbinding, hcursor, hprevious, hverified, hidsSha, hfactsSha, hperIdSha⟩,
      ⟨hids, hidsDistinct, heventsDistinct, hevents, hcounts, hsum, checkTerminals_ok.mp hterminals,
        hstate, eligible, hmissing ▸ hproof, heligible⟩,
      hlast.mp hfollows⟩
  · rintro ⟨hl, hb, hf⟩
    obtain ⟨eligible, hproof, heligible⟩ := hb.proof
    exact ⟨(), ⟨hl.binding, hl.cursor, hl.previous⟩, (), hl.verified, (), ⟨hl.ids, hl.facts⟩, (),
      ⟨hb.ids, hb.idsDistinct, hb.eventsDistinct⟩, (),
      hb.events, (), ⟨hb.counts, hb.sum, hl.perId⟩, (), checkTerminals_ok.mpr hb.terminals, (),
      hb.state, (eligible, f.incompleteProperty), hproof, (), ⟨heligible, rfl⟩, hlast.mpr hf⟩

theorem validate_ok {d : Drain} {frames : List Frame} {f : Frame} : d.validate frames f = .ok () ↔
    d.Linked (frames.length + 1) frames.getLast? f ∧ d.Balanced f ∧
    ∀ previous, frames.getLast? = some previous → Follows previous f :=
  validateAt_ok

/-! ## One entry a trade -/

theorem PerId.get_some {m : PerId} {event : String} {t : Terminal} (h : m.get event = some t) :
    t ∈ m.entries ∧ t.event = event :=
  Keyed.find_some _ h

theorem PerId.get_of_mem {m : PerId} {t : Terminal} (h : t ∈ m.entries) : m.get t.event = some t :=
  Keyed.find_of_mem _ m.distinct h

theorem PerId.get_set (m : PerId) (t : Terminal) (event : String) :
    (m.set t).get event = if t.event = event then some t else m.get event := Keyed.find_put _ _ _ _

/-- The counts are of all entries. -/
theorem PerId.sum_counts (m : PerId) : m.counts.sum = m.entries.length := by
  unfold PerId.counts DrainCounts.sum PerId.count
  induction m.entries with
  | nil => rfl
  | cons t l ih =>
    rw [List.length_cons, ← ih]
    simp only [List.countP_cons]
    cases t.state <;> simp <;> omega

theorem length_of_toFinset {l l' : List String} (hl : l.Nodup) (hl' : l'.Nodup)
    (h : l.toFinset = l'.toFinset) : l.length = l'.length := by
  rw [← List.toFinset_card_of_nodup hl, h, List.toFinset_card_of_nodup hl']

/-- Nothing is pending or in error. -/
theorem complete_iff {m : PerId} (h : ∀ t ∈ m.entries, t.state ≠ .noInitialDecisionExpected) :
    m.counts.complete = true ↔ ∀ t ∈ m.entries, t.state = .recorded := by
  have hcount : m.counts.complete = true ↔ m.count .pending = 0 ∧ m.count .captureError = 0 := by
    unfold DrainCounts.complete PerId.counts
    exact decide_eq_true_iff
  rw [hcount]
  unfold PerId.count
  simp only [List.countP_eq_zero, decide_eq_true_eq]
  constructor
  · rintro ⟨hpending, herror⟩ t ht
    cases hstate : t.state with
    | recorded => rfl
    | noInitialDecisionExpected => exact absurd hstate (h t ht)
    | pending => exact absurd hstate (hpending t ht)
    | captureError => exact absurd hstate (herror t ht)
  · intro hall
    refine ⟨fun t ht => ?_, fun t ht => ?_⟩
    · rw [hall t ht]
      exact nofun
    · rw [hall t ht]
      exact nofun

/-- A trade of the population has its entry. -/
theorem Drain.Balanced.entry {d : Drain} {f : Frame} (h : d.Balanced f)
    {t : TradeFact} (ht : t ∈ f.sourceFacts) :
    ∃ e, f.perId.get t.sourceEventId = some e ∧ e ∈ f.perId.entries := by
  have hmem : t.sourceEventId ∈ (f.perId.entries.map Terminal.event).toFinset := by
    rw [h.events]
    exact List.mem_toFinset.mpr (List.mem_map_of_mem ht)
  obtain ⟨e, he, hevent⟩ := List.mem_map.mp (List.mem_toFinset.mp hmem)
  exact ⟨e, hevent ▸ PerId.get_of_mem he, he⟩

/-- The trade has its decision. -/
def Frame.Decided (f : Frame) (t : TradeFact) : Prop :=
  ∃ decision, f.perId.get t.sourceEventId = some ⟨t.sourceEventId, .recorded, some decision⟩ ∧
    decision.sourceEventId = t.sourceEventId ∧
    decision.decisionUtc.isSome

theorem Drain.Balanced.decided {d : Drain} {f : Frame} (h : d.Balanced f) {e : Terminal}
    (he : e ∈ f.perId.entries) (hstate : e.state = .recorded) :
    ∃ decision, e = ⟨e.event, .recorded, some decision⟩ ∧ decision.sourceEventId = e.event ∧
    decision.decisionUtc.isSome := by
  obtain ⟨decision, hdecision, hevent, hutc⟩ := (h.terminals e he).2 hstate
  obtain ⟨event, state, found⟩ := e
  obtain rfl : state = .recorded := hstate
  obtain rfl : found = some decision := hdecision
  exact ⟨decision, rfl, hevent, hutc⟩

/-- COMPLETE is a decision on every trade. -/
theorem Drain.Balanced.complete_iff {d : Drain} {f : Frame} (h : d.Balanced f) :
    f.state = .complete ↔ truthy f.error = false ∧ ∀ t ∈ f.sourceFacts, f.Decided t := by
  have hall : f.perId.counts.complete = true ↔ ∀ t ∈ f.sourceFacts, f.Decided t := by
    rw [Comparison.complete_iff fun e he => (h.terminals e he).1]
    constructor
    · intro hrecorded t ht
      obtain ⟨e, hget, he⟩ := h.entry ht
      obtain ⟨decision, hform, hevent, hutc⟩ := h.decided he (hrecorded e he)
      rw [(PerId.get_some hget).2] at hform hevent
      exact ⟨decision, hget.trans (congrArg some hform), hevent, hutc⟩
    · intro hdecided e he
      have hmem : e.event ∈ (f.sourceFacts.map TradeFact.sourceEventId).toFinset := by
        rw [← h.events]
        exact List.mem_toFinset.mpr (List.mem_map_of_mem he)
      obtain ⟨t, ht, hevent⟩ := List.mem_map.mp (List.mem_toFinset.mp hmem)
      obtain ⟨decision, hget, -⟩ := hdecided t ht
      rw [hevent, PerId.get_of_mem he] at hget
      rw [Option.some.inj hget]
  rw [← hall, h.state]
  unfold drainState
  cases truthy f.error <;> cases f.perId.counts.complete <;> simp

theorem Follows.trans {f g h : Frame} (hfg : Follows f g) (hgh : Follows g h) : Follows f h where
  open_ := hfg.open_
  ids := hgh.ids.trans hfg.ids
  facts := hgh.facts.trans hfg.facts
  recorded old hold hstate := by
    have hg := hfg.recorded old hold hstate
    exact hgh.recorded old (PerId.get_some hg).1 hstate

theorem load_snoc {d : Drain} {frames : List Frame} {f : Frame} :
    d.load (frames ++ [f]) = .ok () ↔ d.load frames = .ok () ∧ d.validate frames f = .ok () := by
  unfold Drain.load
  rw [LogFold.runFrom_snoc, List.nil_append]
  cases LogFold.runFrom (fun pre _ frame => d.validate pre frame) [] () frames with
  | error text => exact ⟨nofun, fun h => nomatch h.1⟩
  | ok u => exact ⟨fun h => ⟨rfl, h⟩, fun h => h.2⟩

/-- Each frame of a journal that loads is linked to the one before it, and its digests are
those of what it says. -/
theorem load_linked {d : Drain} {frames pre post : List Frame}
    {f : Frame} (h : d.load frames = .ok ())
    (hframes : frames = pre ++ f :: post) : d.Linked (pre.length + 1) pre.getLast? f := by
  induction frames using List.reverseRecOn generalizing post with
  | nil => exact absurd hframes.symm (List.append_ne_nil_of_right_ne_nil _ (List.cons_ne_nil _ _))
  | append_singleton frames g ih =>
    obtain ⟨hload, hvalid⟩ := load_snoc.mp h
    rcases List.eq_nil_or_concat post with rfl | ⟨post', g', rfl⟩
    · obtain ⟨rfl, hlast⟩ := List.append_inj' hframes rfl
      obtain rfl := List.singleton_inj.mp hlast
      exact (validate_ok.mp hvalid).1
    · rw [List.concat_eq_append, ← List.cons_append, ← List.append_assoc] at hframes
      exact ih hload (List.append_inj' hframes rfl).1

theorem load_balanced {d : Drain} {frames : List Frame} (h : d.load frames = .ok ()) :
    ∀ f ∈ frames, d.Balanced f := by
  induction frames using List.reverseRecOn with
  | nil => exact fun f hf => (List.not_mem_nil hf).elim
  | append_singleton frames f ih =>
    obtain ⟨hload, hvalid⟩ := load_snoc.mp h
    intro g hg
    rcases List.mem_append.mp hg with hg | hg
    · exact ih hload g hg
    · obtain rfl := List.mem_singleton.mp hg
      exact (validate_ok.mp hvalid).2.1

theorem load_follows {d : Drain} {frames : List Frame} (h : d.load frames = .ok ()) :
    frames.Pairwise Follows := by
  induction frames using List.reverseRecOn with
  | nil => exact .nil
  | append_singleton frames f ih =>
    obtain ⟨hload, hvalid⟩ := load_snoc.mp h
    have hpairwise := ih hload
    refine List.pairwise_append.mpr ⟨hpairwise, List.pairwise_singleton _ _, fun g hg f' hf' => ?_⟩
    obtain rfl := List.mem_singleton.mp hf'
    -- the last frame follows the one before it, and that one all the others
    rcases List.eq_nil_or_concat frames with rfl | ⟨before, last, rfl⟩
    · cases hg
    · rw [List.concat_eq_append] at hg hpairwise hvalid
      have hlast := (validate_ok.mp hvalid).2.2 last List.getLast?_concat
      rcases List.mem_append.mp hg with hg | hg
      · exact ((List.pairwise_append.mp hpairwise).2.2 g hg last
          (List.mem_singleton_self _)).trans hlast
      · exact List.mem_singleton.mp hg ▸ hlast

/-- A journal that loads is one story.  Each frame accounts for each trade of the one population,
COMPLETE where every trade is decided; its digests and its population proof are right, and it names
the frame before it; frames follow each other with nothing decided taken back, up to the first that
is not DRAINING. -/
theorem load_story {d : Drain} {frames : List Frame} (h : d.load frames = .ok ()) :
    (∀ f ∈ frames, d.Balanced f ∧
      (f.state = .complete ↔ truthy f.error = false ∧ ∀ t ∈ f.sourceFacts, f.Decided t)) ∧
      (∀ pre f post, frames = pre ++ f :: post → d.Linked (pre.length + 1) pre.getLast? f) ∧
      frames.Pairwise Follows := by
  refine ⟨fun f hf => ?_, fun pre f post => load_linked h, load_follows h⟩
  have hbalanced := load_balanced h f hf
  exact ⟨hbalanced, hbalanced.complete_iff⟩

/-! ## What the drain appends -/

/-- A population and a map that can go into the next frame. -/
structure Drain.Ready (d : Drain) (frames : List Frame)
    (facts : List TradeFact) (m : PerId) : Prop where
  idsDistinct : (facts.map TradeFact.sourceRecordId).Nodup
  eventsDistinct : (facts.map TradeFact.sourceEventId).Nodup
  events : (m.entries.map Terminal.event).toFinset = (facts.map TradeFact.sourceEventId).toFinset
  terminals : ∀ t ∈ m.entries, t.state ≠ .noInitialDecisionExpected ∧
    (t.state = .recorded → ∃ decision ∈ t.decision, decision.sourceEventId = t.event ∧
      decision.decisionUtc.isSome)
  proof : ∃ r, d.populationProof facts = .ok r
  follows : ∀ previous, frames.getLast? = some previous →
    previous.state = .draining ∧ previous.sourceFacts = facts ∧
    previous.frozenIds = facts.map TradeFact.sourceRecordId ∧
    ∀ old ∈ previous.perId.entries, old.state = .recorded → m.get old.event = some old

theorem Terminal.capture_recorded {t : Terminal} (h : t.state = .recorded) : t.capture = t := by
  unfold Terminal.capture
  rw [if_neg (by rw [h]; exact nofun)]

theorem Drain.Ready.captured {d : Drain} {frames : List Frame} {facts : List TradeFact}
    {m : PerId} (h : d.Ready frames facts m)
    (error : Option String) : d.Ready frames facts (m.captured error) := by
  unfold PerId.captured
  split
  · refine ⟨h.idsDistinct, h.eventsDistinct, ?_, fun t ht => ?_, h.proof, fun previous hp => ?_⟩
    · have hevents : ((m.map Terminal.capture Terminal.capture_event).entries.map Terminal.event) =
          m.entries.map Terminal.event := by
        show (m.entries.map Terminal.capture).map Terminal.event = _
        rw [List.map_map, show Terminal.event ∘ Terminal.capture = Terminal.event from
          funext Terminal.capture_event]
      rw [hevents]
      exact h.events
    · obtain ⟨u, hu, rfl⟩ := List.mem_map.mp ht
      have hterminal := h.terminals u hu
      unfold Terminal.capture
      split
      · exact ⟨nofun, nofun⟩
      · exact hterminal
    · obtain ⟨hopen, hfacts, hids, hrecorded⟩ := h.follows previous hp
      refine ⟨hopen, hfacts, hids, fun old hold hstate => ?_⟩
      obtain ⟨hmem, -⟩ := PerId.get_some (hrecorded old hold hstate)
      have hmem' : old ∈ (m.map Terminal.capture Terminal.capture_event).entries := by
        rw [← Terminal.capture_recorded hstate]
        exact List.mem_map_of_mem hmem
      exact PerId.get_of_mem hmem'
  · exact h

/-- The frame it makes passes its own check, and so does the journal with it. -/
theorem append_valid {d : Drain} {frames : List Frame} {facts : List TradeFact}
    {m : PerId} (h : d.Ready frames facts m) (hload : d.load frames = .ok ())
    (observedUtc : String) (query : DrainQuery) (error : Option String) :
    ∃ f, d.append frames observedUtc facts m query error = .ok (frames ++ [f]) ∧
      d.load (frames ++ [f]) = .ok () ∧
      f.sourceFacts = facts ∧ f.error = error ∧ f.perId = m.captured error := by
  have hr := h.captured error
  obtain ⟨proof, hproof⟩ := h.proof
  have hvalid : d.validate frames (d.signed frames observedUtc facts
      (m.captured error) query error proof) = .ok () := by
    rw [validate_ok]
    refine ⟨⟨rfl, rfl, rfl, d.verify_sign _, rfl, rfl, rfl⟩,
      ⟨rfl, hr.idsDistinct, hr.eventsDistinct, hr.events, rfl, ?_, hr.terminals, rfl,
      proof.1, hproof, rfl⟩, fun previous hp => ?_⟩
    · show (m.captured error).counts.sum = (facts.map TradeFact.sourceRecordId).length
      have hlength := length_of_toFinset (m.captured error).distinct hr.eventsDistinct hr.events
      rw [PerId.sum_counts, List.length_map]
      rwa [List.length_map, List.length_map] at hlength
    · obtain ⟨hopen, hfacts, hids, hrecorded⟩ := hr.follows previous hp
      exact ⟨hopen, hids.symm, hfacts.symm, hrecorded⟩
  refine ⟨d.signed frames observedUtc facts (m.captured error) query error proof, ?_,
    load_snoc.mpr ⟨hload, hvalid⟩, rfl, rfl, rfl⟩
  unfold Drain.append
  rw [hproof]
  simp only [bind, Except.bind]
  rw [hvalid]

/-! ## An honest scan -/

theorem pendingPerId_get (facts : List TradeFact) (event : String) :
    (pendingPerId facts).get event = if event ∈ facts.map TradeFact.sourceEventId then
    some ⟨event, .pending, none⟩ else none := by
  unfold pendingPerId
  induction facts using List.reverseRecOn with
  | nil => rfl
  | append_singleton facts t ih =>
    rw [List.foldl_append, List.foldl_cons, List.foldl_nil, PerId.get_set, ih]
    by_cases h : t.sourceEventId = event
    · subst h
      rw [if_pos rfl,
        if_pos (by rw [List.map_append]; exact List.mem_append_right _ (List.mem_singleton_self _))]
    · have hiff : event ∈ (facts ++ [t]).map TradeFact.sourceEventId ↔
          event ∈ facts.map TradeFact.sourceEventId := by
        rw [List.map_append, List.mem_append, List.map_singleton, List.mem_singleton]
        exact or_iff_left fun he => h he.symm
      rw [if_neg h]
      simp only [hiff]

/-- One row at most for each trade of the population. -/
structure OneEach (facts : List TradeFact) (decisions : List Decision) : Prop where
  distinct : (decisions.map Decision.sourceEventId).Nodup
  events : ∀ decision ∈ decisions, decision.sourceEventId ∈ facts.map TradeFact.sourceEventId

theorem OneEach.perm {facts : List TradeFact} {l l' : List Decision} (h : OneEach facts l)
    (hp : l.Perm l') : OneEach facts l' where
  distinct := (hp.map _).nodup_iff.mp h.distinct
  events decision hd := h.events decision (hp.mem_iff.mpr hd)

/-- The decisions recorded are of the source. -/
def PerId.From (m : PerId) (decisions : List Decision) : Prop :=
  ∀ t ∈ m.entries, (t.state = .pending ∧ t.decision = none) ∨
    t.state = .recorded ∧ ∃ decision ∈ decisions, t.decision = some decision ∧
    decision.sourceEventId = t.event ∧ decision.decisionUtc.isSome

theorem currentDecision_of_mem {decisions : List Decision}
    (hn : (decisions.map Decision.sourceEventId).Nodup) {decision : Decision}
    (h : decision ∈ decisions) :
    currentDecision decisions decision.sourceEventId = some decision := by
  have hn' : (decisions.reverse.map Decision.sourceEventId).Nodup := by
    rw [List.map_reverse]
    exact List.nodup_reverse.mpr hn
  exact Keyed.find_of_mem Decision.sourceEventId hn' (List.mem_reverse.mpr h)

/-- Nothing recorded is lost from a source that keeps it. -/
theorem PerId.From.kept {m : PerId} {decisions : List Decision} (h : m.From decisions)
    (hn : (decisions.map Decision.sourceEventId).Nodup) :
    ¬ ∃ t ∈ m.entries, t.decision.isSome ∧ currentDecision decisions t.event ≠ t.decision := by
  rintro ⟨t, ht, hsome, hne⟩
  rcases h t ht with ⟨-, hnone⟩ | ⟨-, decision, hmem, hdecision, hevent, -⟩
  · rw [hnone] at hsome
    cases hsome
  · rw [hdecision, ← hevent] at hne
    exact hne (currentDecision_of_mem hn hmem)

/-- What is recorded for the event of a row is this very row. -/
theorem PerId.From.same {m : PerId} {decisions : List Decision} (h : m.From decisions)
    (hn : (decisions.map Decision.sourceEventId).Nodup) {decision : Decision}
    (hd : decision ∈ decisions) {old : Terminal}
    (hold : m.get decision.sourceEventId = some old) :
    old = ⟨decision.sourceEventId, .pending, none⟩ ∨
    old = ⟨decision.sourceEventId, .recorded, some decision⟩ := by
  obtain ⟨hmem, hevent⟩ := PerId.get_some hold
  obtain ⟨event, state, found⟩ := old
  obtain rfl : event = decision.sourceEventId := hevent
  rcases h _ hmem with ⟨hstate, hnone⟩ | ⟨hstate, d', hd', hdecision, hevent', -⟩
  · obtain rfl : state = .pending := hstate
    obtain rfl : found = none := hnone
    exact .inl rfl
  · obtain rfl : state = .recorded := hstate
    obtain rfl : found = some d' := hdecision
    have hcurrent := currentDecision_of_mem hn hd'
    rw [show d'.sourceEventId = decision.sourceEventId from
      hevent', currentDecision_of_mem hn hd] at hcurrent
    rw [Option.some.inj hcurrent]
    exact .inr rfl

theorem PerId.From.set {m : PerId} {decisions : List Decision} (h : m.From decisions)
    {decision : Decision} (hd : decision ∈ decisions) (hutc : decision.decisionUtc.isSome) :
    (m.set ⟨decision.sourceEventId, .recorded, some decision⟩).From decisions := by
  intro t ht
  have hget := PerId.get_of_mem ht
  rw [PerId.get_set] at hget
  split at hget
  · obtain rfl := Option.some.inj hget
    exact .inr ⟨rfl, decision, hd, rfl, rfl, hutc⟩
  · exact h t (PerId.get_some hget).1

/-- An entry for each trade. -/
def PerId.Covers (m : PerId) (facts : List TradeFact) : Prop :=
  ∀ event, (m.get event).isSome ↔ event ∈ facts.map TradeFact.sourceEventId

theorem PerId.Covers.set {m : PerId} {facts : List TradeFact} (h : m.Covers facts) {t : Terminal}
    (ht : t.event ∈ facts.map TradeFact.sourceEventId) :
    (m.set t).Covers facts := by
  intro event
  rw [PerId.get_set]
  by_cases he : t.event = event
  · rw [if_pos he]
    exact ⟨fun _ => he ▸ ht, fun _ => rfl⟩
  · rw [if_neg he]
    exact h event

/-- What the loop makes of a map: the decided rows are recorded, and what was recorded stays. -/
structure Recorded (facts : List TradeFact) (decisions : List Decision) (m : PerId)
    (rest : List Decision) (r : PerId × Option String) : Prop where
  error : r.2 = none
  source : r.1.From decisions
  covers : r.1.Covers facts
  kept : ∀ t ∈ m.entries, t.state = .recorded → r.1.get t.event = some t
  recorded : ∀ decision ∈ rest, decision.decisionUtc.isSome →
    r.1.get decision.sourceEventId = some ⟨decision.sourceEventId, .recorded, some decision⟩

theorem recordDecisions_honest {facts : List TradeFact} {decisions : List Decision}
    (h : OneEach facts decisions) {m : PerId} (hfrom : m.From decisions)
    (hcovers : m.Covers facts) {rest : List Decision}
    (hrest : ∀ decision ∈ rest, decision ∈ decisions) :
    Recorded facts decisions m rest (recordDecisions m rest) := by
  induction rest generalizing m with
  | nil =>
    exact ⟨rfl, hfrom, hcovers, fun t ht _ => PerId.get_of_mem ht,
      fun _ hd => (List.not_mem_nil hd).elim⟩
  | cons decision rest ih =>
    have hmem := hrest decision List.mem_cons_self
    have hrest' : ∀ d ∈ rest, d ∈ decisions := fun d hd => hrest d (List.mem_cons_of_mem _ hd)
    obtain ⟨old, hold⟩ := Option.isSome_iff_exists.mp ((hcovers _).mpr (h.events decision hmem))
    have hsame := hfrom.same h.distinct hmem hold
    have hclean : ¬ (old.decision ≠ none ∧ old.decision ≠ some decision) := by
      rintro ⟨hsome, hne⟩
      rcases hsame with rfl | rfl
      · exact hsome rfl
      · exact hne rfl
    unfold recordDecisions
    rw [hold]
    simp only [if_neg hclean]
    by_cases hutc : decision.decisionUtc.isSome
    · rw [if_pos hutc]
      let entry : Terminal := ⟨decision.sourceEventId, .recorded, some decision⟩
      have hrec :=
      ih (hfrom.set hmem hutc) (hcovers.set (t := entry) (h.events decision hmem)) hrest'
      have hentry : (m.set entry).get decision.sourceEventId = some entry := by
        rw [PerId.get_set]
        exact if_pos rfl
      refine ⟨hrec.error, hrec.source, hrec.covers, fun t ht hstate => ?_, fun d hd hdutc => ?_⟩
      · -- a recorded entry of the same event is the entry the row makes
        have hget : (m.set entry).get t.event = some t := by
          rw [PerId.get_set]
          by_cases he : entry.event = t.event
          · have hget := PerId.get_of_mem ht
            rw [← he] at hget
            obtain rfl := Option.some.inj (hold.symm.trans hget)
            rcases hsame with rfl | rfl
            · cases hstate
            · rw [if_pos rfl]
          · rw [if_neg he]
            exact PerId.get_of_mem ht
        exact hrec.kept t (PerId.get_some hget).1 hstate
      · rcases List.mem_cons.mp hd with rfl | hd
        · exact hrec.kept entry (PerId.get_some hentry).1 rfl
        · exact hrec.recorded d hd hdutc
    · rw [if_neg hutc]
      have hrec := ih hfrom hcovers hrest'
      refine ⟨hrec.error, hrec.source, hrec.covers, hrec.kept, fun d hd hdutc => ?_⟩
      rcases List.mem_cons.mp hd with rfl | hd
      · exact absurd hdutc hutc
      · exact hrec.recorded d hd hdutc

/-! ## Runs over an honest source -/

/-- The file, the process that holds its lock, and the decisions the source has. -/
structure DrainRun where
  file : List Frame
  torn : Bool
  running : Bool
  decisions : List Decision

inductive DrainEvent
  | opens
  | crashes
  /-- A crash in the middle of a line. -/
  | tears
  | decides
  | steps
  | timesOut

/-- What may happen next over a source of these trades, which keeps a decision once it has one. -/
inductive DrainStep (d : Drain) (facts : List TradeFact) (s : DrainRun) :
    DrainEvent → DrainRun → Prop
  | opens : s.running = false → s.torn = false → d.load s.file = .ok () →
      DrainStep d facts s .opens { s with running := true }
  | crashes : DrainStep d facts s .crashes { s with running := false }
  | tears : s.running = true → DrainStep d facts s .tears { s with running := false, torn := true }
  | decides {decisions : List Decision} : OneEach facts decisions →
      (∀ decision ∈ s.decisions, decision.decisionUtc.isSome → decision ∈ decisions) →
      DrainStep d facts s .decides { s with decisions := decisions }
  | steps {now queriedUtc observedUtc : String} {scanned : List Decision}
      {checkpoint : Option SqlCheckpoint} {file : List Frame} :
      s.running = true → scanned.Perm s.decisions →
      d.step s.file now queriedUtc observedUtc (.ok ⟨facts, scanned, checkpoint⟩) = .ok file →
      DrainStep d facts s .steps { s with file := file }
  | timesOut {observedUtc : String} {file : List Frame} : s.running = true →
      d.timeout s.file observedUtc = .ok file →
      DrainStep d facts s .timesOut { s with file := file }

/-- A frame of the population, with decisions of the source. -/
structure HonestFrame (facts : List TradeFact) (decisions : List Decision) (f : Frame) : Prop where
  sourceFacts : f.sourceFacts = facts
  frozenIds : f.frozenIds = facts.map TradeFact.sourceRecordId
  error : f.error = none ∨ f.error = some safetyTimeout
  source : f.perId.From decisions
  covers : f.perId.Covers facts

structure Honest (d : Drain) (facts : List TradeFact) (file : List Frame)
    (decisions : List Decision) : Prop where
  load : d.load file = .ok ()
  oneEach : OneEach facts decisions
  frames : ∀ f ∈ file, HonestFrame facts decisions f

/-- The population a drain can take. -/
structure Drain.Takes (d : Drain) (facts : List TradeFact) : Prop where
  ids : (facts.map TradeFact.sourceRecordId).Nodup
  events : (facts.map TradeFact.sourceEventId).Nodup
  proof : ∃ r, d.populationProof facts = .ok r

theorem PerId.From.mono {m : PerId} {l l' : List Decision} (h : m.From l)
    (hkept : ∀ decision ∈ l, decision.decisionUtc.isSome → decision ∈ l') :
    m.From l' := by
  intro t ht
  rcases h t ht with hpending | ⟨hstate, decision, hd, hdecision, hevent, hutc⟩
  · exact .inl hpending
  · exact .inr ⟨hstate, decision, hkept decision hd hutc, hdecision, hevent, hutc⟩

theorem PerId.Covers.events {m : PerId} {facts : List TradeFact} (h : m.Covers facts) :
    (m.entries.map Terminal.event).toFinset = (facts.map TradeFact.sourceEventId).toFinset := by
  ext event
  rw [List.mem_toFinset, List.mem_toFinset, ← h event]
  constructor
  · intro hmem
    obtain ⟨t, ht, rfl⟩ := List.mem_map.mp hmem
    rw [PerId.get_of_mem ht]
    rfl
  · intro hsome
    obtain ⟨t, ht⟩ := Option.isSome_iff_exists.mp hsome
    exact List.mem_map.mpr ⟨t, PerId.get_some ht⟩

theorem pendingPerId_covers (facts : List TradeFact) : (pendingPerId facts).Covers facts := by
  intro event
  rw [pendingPerId_get]
  split
  · next h => exact ⟨fun _ => h, fun _ => rfl⟩
  · next h => exact ⟨nofun, fun he => absurd he h⟩

theorem pendingPerId_from (facts : List TradeFact) (decisions : List Decision) :
    (pendingPerId facts).From decisions := by
  intro t ht
  have hget := PerId.get_of_mem ht
  rw [pendingPerId_get] at hget
  split at hget
  · obtain ⟨event, state, found⟩ := t
    injection Option.some.inj hget with _ hstate hfound
    exact .inl ⟨hstate.symm, hfound.symm⟩
  · cases hget

/-- A map that covers the population, with decisions of the source, can go into the next frame. -/
theorem Drain.Takes.ready {d : Drain} {facts : List TradeFact} (ht : d.Takes facts)
    {file : List Frame} {decisions : List Decision} {m : PerId} (hcovers : m.Covers facts)
    (hfrom : m.From decisions)
    (hfollows : ∀ previous, file.getLast? = some previous →
      previous.state = .draining ∧ previous.sourceFacts = facts ∧
      previous.frozenIds = facts.map TradeFact.sourceRecordId ∧
      ∀ old ∈ previous.perId.entries, old.state = .recorded → m.get old.event = some old) :
    d.Ready file facts m where
  idsDistinct := ht.ids
  eventsDistinct := ht.events
  events := hcovers.events
  terminals t hmem := by
    rcases hfrom t hmem with ⟨hstate, -⟩ | ⟨hstate, decision, -, hdecision, hevent, hutc⟩
    · rw [hstate]
      exact ⟨nofun, nofun⟩
    · rw [hstate]
      exact ⟨nofun, fun _ => ⟨decision, hdecision, hevent, hutc⟩⟩
  proof := ht.proof
  follows := hfollows

theorem Honest.start {d : Drain} {facts : List TradeFact} {file : List Frame}
    {decisions : List Decision} (h : Honest d facts file decisions) :
    (startPerId file facts).From decisions ∧ (startPerId file facts).Covers facts ∧
      (file.getLast?.map Frame.sourceFacts).getD facts = facts := by
  unfold startPerId
  cases hlast : file.getLast? with
  | none => exact ⟨pendingPerId_from facts decisions, pendingPerId_covers facts, rfl⟩
  | some f =>
    have hf := h.frames f (List.mem_of_getLast? hlast)
    exact ⟨hf.source, hf.covers, hf.sourceFacts⟩

/-- A scan of the source, after the end. -/
theorem Honest.scan {d : Drain} {facts : List TradeFact} (ht : d.Takes facts)
    {file : List Frame} {decisions : List Decision} (h : Honest d facts file decisions)
    {now queriedUtc observedUtc : String} {instant stop : Int} {scanned : List Decision}
    {checkpoint : Option SqlCheckpoint} (hopen : ∀ f, file.getLast? = some f → f.state = .draining)
    (hnow : epochMicros now = .ok instant)
    (hstop : epochMicros d.binding.window.endUtc = .ok stop) (hend : stop ≤ instant)
    (hperm : scanned.Perm decisions) :
    ∃ f, d.step file now queriedUtc observedUtc (.ok ⟨facts, scanned, checkpoint⟩) =
      .ok (file ++ [f]) ∧ d.load (file ++ [f]) = .ok () ∧
      HonestFrame facts decisions f ∧ f.error = none ∧
      ∀ decision ∈ decisions, decision.decisionUtc.isSome →
        f.perId.get decision.sourceEventId =
          some ⟨decision.sourceEventId, .recorded, some decision⟩ := by
  obtain ⟨hfrom, hcovers, hfacts⟩ := h.start
  have hone := h.oneEach.perm hperm.symm
  have hfrom' : (startPerId file facts).From scanned :=
    hfrom.mono fun decision hd _ => hperm.mem_iff.mpr hd
  have hrec : Recorded facts scanned (startPerId file facts) scanned
      (recordDecisions (startPerId file facts) scanned) :=
    @recordDecisions_honest _ _ hone _ hfrom' hcovers scanned fun _ hd => hd
  have hready : d.Ready file facts (recordDecisions (startPerId file facts) scanned).1 := by
    refine ht.ready hrec.covers hrec.source fun previous hp => ?_
    have hf := h.frames previous (List.mem_of_getLast? hp)
    refine ⟨hopen previous hp, hf.sourceFacts, hf.frozenIds,
      fun old hold hstate => hrec.kept old ?_ hstate⟩
    unfold startPerId
    rw [hp]
    exact hold
  have hany : file.getLast?.any (fun f => f.state ≠ .draining) = false := by
    cases hlast : file.getLast? with
    | none => rfl
    | some f => simp [hopen f hlast]
  unfold Drain.step
  rw [hany]
  simp only [Bool.false_eq_true, if_false, hnow, hstop, bind, Except.bind, raiseIf,
    if_neg (not_lt.mpr hend), hfacts]
  rw [if_neg (fun hne => hne.2 rfl), if_neg (hfrom'.kept hone.distinct)]
  rw [hrec.error]
  obtain ⟨f, happend, hload, hsource, herror, hmap⟩ := append_valid hready h.load observedUtc _ none
  have hmap : f.perId = (recordDecisions (startPerId file facts) scanned).1 := hmap
  have hbalanced := (validate_ok.mp (load_snoc.mp hload).2).2.1
  refine ⟨f, happend, hload, ⟨hsource, ?_, .inl herror, ?_, ?_⟩, herror, fun decision hd hutc => ?_⟩
  · rw [← hbalanced.ids, hsource]
  · rw [hmap]
    exact hrec.source.mono fun decision hd _ => hperm.mem_iff.mp hd
  · rw [hmap]
    exact hrec.covers
  · rw [hmap]
    exact hrec.recorded decision (hperm.mem_iff.mpr hd) hutc

/-- Such a frame completes the drain just where every trade is decided. -/
theorem HonestFrame.complete_iff {d : Drain} {facts : List TradeFact} {decisions : List Decision}
    {f : Frame} (hf : HonestFrame facts decisions f) (hbalanced : d.Balanced f)
    (herror : f.error = none)
    (hrecorded : ∀ decision ∈ decisions, decision.decisionUtc.isSome →
      f.perId.get decision.sourceEventId = some ⟨decision.sourceEventId, .recorded, some decision⟩) :
    f.state = .complete ↔ ∀ trade ∈ facts, ∃ decision ∈ decisions,
    decision.sourceEventId = trade.sourceEventId ∧ decision.decisionUtc.isSome := by
  rw [hbalanced.complete_iff, herror, hf.sourceFacts]
  constructor
  · rintro ⟨-, hall⟩ trade htrade
    obtain ⟨decision, hget, hevent, hutc⟩ := hall trade htrade
    rcases hf.source _ (PerId.get_some hget).1 with ⟨hpending, -⟩ | ⟨-, d', hmem, hdecision, -, -⟩
    · cases hpending
    · obtain rfl := Option.some.inj hdecision
      exact ⟨decision, hmem, hevent, hutc⟩
  · intro hall
    refine ⟨rfl, fun trade htrade => ?_⟩
    obtain ⟨decision, hmem, hevent, hutc⟩ := hall trade htrade
    exact ⟨decision, hevent ▸ hrecorded decision hmem hutc, hevent, hutc⟩

theorem Honest.snoc {d : Drain} {facts : List TradeFact} {file : List Frame}
    {decisions : List Decision} (h : Honest d facts file decisions) {f : Frame}
    (hload : d.load (file ++ [f]) = .ok ()) (hf : HonestFrame facts decisions f) :
    Honest d facts (file ++ [f]) decisions where
  load := hload
  oneEach := h.oneEach
  frames g hg := by
    rcases List.mem_append.mp hg with hg | hg
    · exact h.frames g hg
    · exact List.mem_singleton.mp hg ▸ hf

/-- A step that succeeds has appended such a frame, unless the drain has ended. -/
theorem Honest.steps {d : Drain} {facts : List TradeFact} (ht : d.Takes facts)
    {file file' : List Frame} {decisions : List Decision} (h : Honest d facts file decisions)
    {now queriedUtc observedUtc : String} {scanned : List Decision}
    {checkpoint : Option SqlCheckpoint} (hperm : scanned.Perm decisions)
    (hstep : d.step file now queriedUtc observedUtc (.ok ⟨facts, scanned, checkpoint⟩) =
      .ok file') : Honest d facts file' decisions := by
  by_cases hany : file.getLast?.any (fun f => f.state ≠ .draining) = true
  · unfold Drain.step at hstep
    rw [if_pos hany] at hstep
    exact Except.ok.inj hstep ▸ h
  · have hopen : ∀ f, file.getLast? = some f → f.state = .draining := by
      intro f hf
      rw [hf] at hany
      simpa using hany
    obtain ⟨instant, hnow, stop, hstop, hend⟩ : ∃ instant, epochMicros now = .ok instant ∧
        ∃ stop, epochMicros d.binding.window.endUtc = .ok stop ∧ stop ≤ instant := by
      unfold Drain.step at hstep
      rw [if_neg hany] at hstep
      simp only [bind_ok_iff, raiseIf_ok_iff, not_lt] at hstep
      obtain ⟨instant, hnow, stop, hstop, ⟨⟩, hend, -⟩ := hstep
      exact ⟨instant, hnow, stop, hstop, hend⟩
    obtain ⟨f, happend, hload, hf, -⟩ := h.scan ht hopen hnow hstop hend hperm
    rw [happend] at hstep
    exact Except.ok.inj hstep ▸ h.snoc hload hf

theorem Honest.timesOut {d : Drain} {facts : List TradeFact} (ht : d.Takes facts)
    {file file' : List Frame} {decisions : List Decision} (h : Honest d facts file decisions)
    {observedUtc : String} (hstep : d.timeout file observedUtc = .ok file') :
    Honest d facts file' decisions := by
  unfold Drain.timeout at hstep
  cases hlast : file.getLast? with
  | none =>
    rw [hlast] at hstep
    cases hstep
  | some f =>
    rw [hlast] at hstep
    simp only [ite_not] at hstep
    by_cases hopen : f.state = .draining
    · rw [if_pos hopen] at hstep
      have hf := h.frames f (List.mem_of_getLast? hlast)
      have hready : d.Ready file facts f.perId := by
        refine ht.ready hf.covers hf.source fun previous hp => ?_
        obtain rfl := Option.some.inj (hlast.symm.trans hp)
        exact ⟨hopen, hf.sourceFacts, hf.frozenIds, fun old hold _ => PerId.get_of_mem hold⟩
      obtain ⟨g, happend, hload, hsource, herror, hmap⟩ :=
        append_valid hready h.load observedUtc f.query (some safetyTimeout)
      have hmap : g.perId = f.perId := hmap.trans (if_neg fun hne => hne.2 rfl)
      rw [hf.sourceFacts, happend] at hstep
      have hids : g.frozenIds = facts.map TradeFact.sourceRecordId := by
        rw [← (validate_ok.mp (load_snoc.mp hload).2).2.1.ids, hsource]
      exact Except.ok.inj hstep ▸ h.snoc hload ⟨hsource, hids, .inr herror,
        hmap ▸ hf.source, hmap ▸ hf.covers⟩
    · rw [if_neg hopen] at hstep
      cases hstep

theorem Honest.step {d : Drain} {facts : List TradeFact} (ht : d.Takes facts)
    {s t : DrainRun} {ev : DrainEvent} (h : Honest d facts s.file s.decisions)
    (hs : DrainStep d facts s ev t) :
    Honest d facts t.file t.decisions := by
  cases hs with
  | opens | crashes | tears => exact h
  | decides hone hkept =>
    refine ⟨h.load, hone, fun f hf => ?_⟩
    obtain ⟨hsource, hids, herror, hfrom, hcovers⟩ := h.frames f hf
    exact ⟨hsource, hids, herror, hfrom.mono hkept, hcovers⟩
  | steps _ hperm hstep => exact h.steps ht hperm hstep
  | timesOut _ hstep => exact h.timesOut ht hstep

/-- A drain that is down opens again where its whole lines load and no crash
has left part of one. -/
theorem opens_iff {d : Drain} {facts : List TradeFact} {s : DrainRun} (h : d.load s.file = .ok ())
    (hdown : s.running = false) : (∃ t, DrainStep d facts s .opens t) ↔ s.torn = false := by
  constructor
  · rintro ⟨t, ht⟩
    cases ht with
    | opens _ hwhole _ => exact hwhole
  · exact fun hwhole => ⟨_, .opens hdown hwhole h⟩

/-- Over an honest source the whole lines load after any order of scans, decisions, crashes and
restarts, and the drain opens again unless part of a line is left; no frame has an error but a
timeout, every decision in it is the source's, and a scan that is due ends the drain just where
every trade is decided. -/
theorem drain_honest {d : Drain} {facts : List TradeFact} (ht : d.Takes facts) {s t : DrainRun}
    {tr : List (DrainEvent × DrainRun)} (hs : s.file = []) (hone : OneEach facts s.decisions)
    (h : Run (DrainStep d facts) s tr t) :
    d.load t.file = .ok () ∧
      (t.running = false → ((∃ u, DrainStep d facts t .opens u) ↔ t.torn = false)) ∧
      (∀ f ∈ t.file, f.sourceFacts = facts ∧ (f.error = none ∨ f.error = some safetyTimeout) ∧
        ∀ e ∈ f.perId.entries, e.state = .recorded →
          ∃ decision ∈ t.decisions, e.decision = some decision ∧ decision.sourceEventId = e.event) ∧
      ∀ (now queriedUtc observedUtc : String) (instant stop : Int) (scanned : List Decision)
        (checkpoint : Option SqlCheckpoint),
        (∀ f, t.file.getLast? = some f → f.state = .draining) → epochMicros now = .ok instant →
        epochMicros d.binding.window.endUtc = .ok stop → stop ≤ instant → scanned.Perm t.decisions →
        ∃ f, d.step t.file now queriedUtc observedUtc (.ok ⟨facts, scanned, checkpoint⟩) =
          .ok (t.file ++ [f]) ∧ f.error = none ∧
          (f.state = .complete ↔ ∀ trade ∈ facts, ∃ decision ∈ t.decisions,
            decision.sourceEventId = trade.sourceEventId ∧ decision.decisionUtc.isSome) := by
  have h0 : Honest d facts s.file s.decisions := by
    rw [hs]
    exact ⟨rfl, hone, fun f hf => (List.not_mem_nil hf).elim⟩
  have hd : Honest d facts t.file t.decisions :=
    h.inv (fun s => Honest d facts s.file s.decisions) (fun _ _ _ hd hs => hd.step ht hs) h0
  refine ⟨hd.load, opens_iff hd.load,
    fun f hf => ⟨(hd.frames f hf).sourceFacts, (hd.frames f hf).error, fun e he hstate => ?_⟩, ?_⟩
  · rcases (hd.frames f hf).source e he with
      ⟨hpending, -⟩ | ⟨-, decision, hmem, hdecision, hevent, -⟩
    · rw [hstate] at hpending
      cases hpending
    · exact ⟨decision, hmem, hdecision, hevent⟩
  · intro now queriedUtc observedUtc instant stop scanned checkpoint hopen hnow hstop hend hperm
    obtain ⟨f, hstep, hload, hf, herror, hrecorded⟩ := hd.scan ht hopen hnow hstop hend hperm
    have hbalanced := (validate_ok.mp (load_snoc.mp hload).2).2.1
    exact ⟨f, hstep, herror, hf.complete_iff hbalanced herror hrecorded⟩

/-! ## A drain of one trade -/

/-- A digest of 64 characters, in which the number can be read. -/
def rehearsalSha256 (n : Nat) : String :=
  String.ofList (List.replicate (64 - (toString n).length) '0' ++ (toString n).toList)

def rehearsalDrain : Drain where
  binding := rehearsal.binding
  postgres := true
  hashBinding := rehearsal.digest.binding
  hashFrame f := rehearsalSha256 f.cursor
  hashFacts := rehearsal.digest.facts
  hashIds := rehearsal.digest.ids
  hashPerId m := "map " ++ toString (m.count .recorded)
  hashDecisions l := "decisions " ++ toString l.length
  sign f := some ("frame " ++ toString f.cursor)
  verify f := raiseIf (f.signature ≠ some ("frame " ++ toString f.cursor)) verifyError
  verify_sign _ := raiseIf_ok_iff.mpr (not_not_intro rfl)
  populationProof := standaloneProof

def rehearsalDecision : Decision where
  sourceEventId := "trade 7"
  paperRecordId := 3
  signalRecordId := some 5
  decisionUtc := some "2026-01-02T00:00:07Z"
  rejectionReason := none
  sourceIngestedUtc := "2026-01-01T12:00:00Z"
  sourceAudit := some ⟨11, "paper_order_executed", "2026-01-02T00:00:07Z", "signal 5"⟩

/-- The journal after a scan at a time. -/
def rehearsalScan (frames : List Frame) (now : String) (decisions : List Decision) : List Frame :=
  (rehearsalDrain.step frames now now now (.ok ⟨[rehearsalTrade], decisions, none⟩)).toOption.getD []

def rehearsalPending : List Frame := rehearsalScan [] "2026-01-02T00:00:06Z" []
def rehearsalComplete : List Frame :=
  rehearsalScan rehearsalPending "2026-01-02T00:00:08Z" [rehearsalDecision]

theorem ok_getD {x : Except String (List Frame)} (h : x.toBool = true) :
    x = .ok (x.toOption.getD []) := by
  cases x with
  | error text => cases h
  | ok frames => rfl

/-- The second frame names the first, and its digest is that of its own map. -/
theorem load_story_rehearsal : rehearsalDrain.load rehearsalComplete = .ok () ∧
    (∀ f ∈ rehearsalComplete, rehearsalDrain.Balanced f) ∧
    ∃ f g, rehearsalComplete = [f, g] ∧ g.previousSha256 = some (rehearsalDrain.hashFrame f) ∧
      g.perIdSha256 = rehearsalDrain.hashPerId g.perId := by
  have hload : rehearsalDrain.load rehearsalComplete = .ok () := by decide +kernel
  obtain ⟨hbalanced, hlinked, -⟩ := load_story hload
  obtain ⟨f, g, htwo⟩ : ∃ f g, rehearsalComplete = [f, g] :=
    List.length_eq_two.mp (by decide +kernel)
  have hlast := hlinked [f] g [] htwo
  exact ⟨hload, fun f hf => (hbalanced f hf).1, f, g, htwo, hlast.previous, hlast.perId⟩

/-- A scan before the decision, a restart, a scan after it, and a crash in the middle of a line. -/
theorem rehearsal_drained :
    ∃ tr, Run (DrainStep rehearsalDrain [rehearsalTrade]) ⟨[], false, false, []⟩ tr
    ⟨rehearsalComplete, true, false, [rehearsalDecision]⟩ := by
  let Next := DrainStep rehearsalDrain [rehearsalTrade]
  have hopens : Next ⟨[], false, false, []⟩ .opens ⟨[], false, true, []⟩ := .opens rfl rfl rfl
  have hfirst : Next ⟨[], false, true, []⟩ .steps ⟨rehearsalPending, false, true, []⟩ :=
    @DrainStep.steps _ _ _ "2026-01-02T00:00:06Z" "2026-01-02T00:00:06Z" "2026-01-02T00:00:06Z" []
      none _ rfl (.refl _) (ok_getD (by decide +kernel))
  have hdecides : Next ⟨rehearsalPending, false, true, []⟩ .decides
      ⟨rehearsalPending, false, true, [rehearsalDecision]⟩ := .decides ⟨by decide, by decide⟩ nofun
  have hcrashes : Next ⟨rehearsalPending, false, true, [rehearsalDecision]⟩ .crashes
      ⟨rehearsalPending, false, false, [rehearsalDecision]⟩ := .crashes
  have hreopens : Next ⟨rehearsalPending, false, false, [rehearsalDecision]⟩ .opens
      ⟨rehearsalPending, false, true, [rehearsalDecision]⟩ := .opens rfl rfl (by decide +kernel)
  have hsecond : Next ⟨rehearsalPending, false, true, [rehearsalDecision]⟩ .steps
      ⟨rehearsalComplete, false, true, [rehearsalDecision]⟩ :=
    @DrainStep.steps _ _ _ "2026-01-02T00:00:08Z" "2026-01-02T00:00:08Z" "2026-01-02T00:00:08Z"
      [rehearsalDecision] none _ rfl (.refl _) (ok_getD (by decide +kernel))
  have htears : Next ⟨rehearsalComplete, false, true, [rehearsalDecision]⟩ .tears
      ⟨rehearsalComplete, true, false, [rehearsalDecision]⟩ := .tears rfl
  exact ⟨_, .cons hopens (.cons hfirst (.cons hdecides (.cons hcrashes (.cons hreopens
    (.cons hsecond (.single htears))))))⟩

theorem drain_honest_rehearsal : rehearsalDrain.load rehearsalComplete = .ok () ∧
    ¬ (∃ u, DrainStep rehearsalDrain [rehearsalTrade]
      ⟨rehearsalComplete, true, false, [rehearsalDecision]⟩ .opens u) ∧
    ∀ f ∈ rehearsalComplete, f.sourceFacts = [rehearsalTrade] ∧
      (f.error = none ∨ f.error = some safetyTimeout) ∧
      ∀ e ∈ f.perId.entries, e.state = .recorded → ∃ decision ∈ [rehearsalDecision],
        e.decision = some decision ∧ decision.sourceEventId = e.event := by
  obtain ⟨tr, hrun⟩ := rehearsal_drained
  have hone : OneEach [rehearsalTrade] [] := ⟨List.nodup_nil, nofun⟩
  have h := @drain_honest rehearsalDrain [rehearsalTrade]
    ⟨by decide, by decide, _, rfl⟩ _ _ _ rfl hone hrun
  exact ⟨h.1, fun hopens => Bool.noConfusion ((h.2.1 rfl).mp hopens), h.2.2.1⟩

end Polycopy.Comparison
