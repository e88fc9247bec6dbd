import Polycopy.Shadow.Fences

/-!
# Capture

The whole of a run: the workers' processes, their transactions in the source
database, the journal, and a controller that fences and freezes.

* A process inserts a `Trade` in a transaction the journal has admitted; one whose
  observation has failed, or was never installed, inserts all the same (it is blind),
  but acknowledges nothing.
* A crash aborts the open transactions of a process and leaves those whose COMMIT it
  has sent in doubt.
* The controller reads the population after FENCE, and freezes what it has read, if
  it is what the witnesses say.

`frozen_is_source`: in every order of these steps, what FREEZE holds is every trade of
the cohort ingested in the window that the source database has, and ever will have, if
no blind process dies with a COMMIT in doubt (`Told`); `frozen_misses_untold` is a run
where one does.

Here a record is appended where the replay of the journal with it succeeds, which is
where a `Fence` appends it (`fences_agree`).
-/

namespace Polycopy.Comparison

open Py Py.Clock Runs
open Fence (truthy)

/-! ## The source database and the processes -/

inductive Phase
  | active
  /-- COMMIT is sent. -/
  | sent
  | committed
  | aborted
  deriving DecidableEq, Repr

def Phase.decided : Phase → Bool
  | .active | .sent => false
  | .committed | .aborted => true

/-- An outer transaction of a session. -/
structure SourceTx where
  process : Nat
  token : Option String
  rows : List TradeFact
  witness : Option CommitWitness
  phase : Phase
  deriving DecidableEq, Repr

/-- A process of a worker, with its `local_error`. -/
structure Process where
  worker : String
  localError : Option String
  retired : Bool
  deriving DecidableEq, Repr

/-- It does not observe any more: `control` will not acknowledge. -/
def Process.blind (p : Process) : Bool := truthy p.localError || p.retired

structure Capture where
  /-- The one clock, in microseconds. -/
  now : Int
  log : List Event
  /-- The rows of `trades`, in the order they were committed in. -/
  trades : List TradeFact
  txs : Nat → Option SourceTx
  live : Nat → Option Process
  /-- What `scan` has given to a `freeze` so far. -/
  scans : List (List TradeFact)

def Capture.setTx (s : Capture) (x : Nat) (tx : SourceTx) : Capture :=
  { s with txs := Function.update s.txs x (some tx) }

theorem Capture.setTx_self (s : Capture) (x : Nat) (tx : SourceTx) :
    (s.setTx x tx).txs x = some tx := Function.update_self ..

theorem Capture.setTx_other (s : Capture) {x y : Nat} (tx : SourceTx) (hy : y ≠ x) :
    (s.setTx x tx).txs y = s.txs y :=
  Function.update_of_ne hy ..

def Capture.setProcess (s : Capture) (p : Nat) (process : Option Process) : Capture :=
  { s with live := Function.update s.live p process }

theorem Capture.setProcess_self (s : Capture) (p : Nat) (process : Option Process) :
    (s.setProcess p process).live p = process :=
  Function.update_self ..

theorem Capture.setProcess_other (s : Capture) {p q : Nat} (process : Option Process) (hq : q ≠ p) :
    (s.setProcess p process).live q = s.live q := Function.update_of_ne hq ..

/-- The open transactions of a process are gone with it. -/
def abort (p : Nat) (tx : SourceTx) : SourceTx :=
  if tx.process = p ∧ tx.phase = .active then { tx with phase := .aborted } else tx

def Capture.journal (cfg : Setup) (s : Capture) (observedUtc : String)
    (payload : Payload) : Capture :=
  { s with log := s.log ++ [cfg.record s.log observedUtc payload] }

/-- The rows of the window and the cohort, as `freeze` sorts them. -/
def Capture.scan (b : Binding) (s : Capture) : List TradeFact :=
  sortFacts (s.trades.filter (inFrozen b))

/-- The journal takes the record, which is stamped with the time at the latest. -/
def Capture.Takes (cfg : Setup) (s : Capture) (observedUtc : String) (payload : Payload) : Prop :=
  (∃ observed, epochMicros observedUtc = .ok observed ∧ observed ≤ s.now) ∧
    ∃ d, replay (M := List Attempt) cfg (s.log ++ [cfg.record s.log observedUtc payload]) = .ok d

/-! ## Steps -/

inductive CaptureEvent
  | tick (now : Int)
  | starts (p : Nat) (worker : String) (installed : Bool)
  | crashes (p : Nat)
  /-- `invalidate`. -/
  | fails (p : Nat) (text : String)
  | retires (p : Nat)
  | begins (x p : Nat)
  | admits (x : Nat) (observedUtc token : String)
  | inserts (x : Nat) (row : TradeFact)
  /-- To a `SAVEPOINT`. -/
  | rollsBackTo (x : Nat) (rows : List TradeFact)
  | rollsBack (x : Nat)
  | sends (x : Nat) (witness : Option CommitWitness)
  | commits (x : Nat)
  | refused (x : Nat)
  | enrolls (p : Nat) (observedUtc : String) (installation : Option String)
  | acknowledges (p : Nat) (observedUtc : String)
  | resolves (x : Nat) (observedUtc : String)
  | recovers (x : Nat) (observedUtc : String)
  | closes (observedUtc : String)
  | completes (observedUtc : String)
  | scans
  | freezes (observedUtc : String) (population : Population)
  | archives (observedUtc decision population : String)
  | errs (observedUtc text : String)
  deriving DecidableEq, Repr

/-- What may happen next. Every writer is a process of an expected worker, and a worker has one
live process at most. -/
inductive CaptureStep (cfg : Setup) (s : Capture) : CaptureEvent → Capture → Prop
  | tick {now : Int} : s.now ≤ now → CaptureStep cfg s (.tick now) { s with now := now }
  | starts {p : Nat} {worker : String} (installed : Bool) : s.live p = none →
      (∀ q other, s.live q = some other → other.worker ≠ worker) →
      worker ∈ cfg.binding.expectedWorkers →
      CaptureStep cfg s (.starts p worker installed)
        (s.setProcess p (some ⟨worker, none, !installed⟩))
  | crashes (p : Nat) :
      CaptureStep cfg s (.crashes p) { s.setProcess p none with
        txs := fun x => (s.txs x).map (abort p) }
  | fails {p : Nat} {process : Process} (text : String) : s.live p = some process →
      CaptureStep cfg s (.fails p text)
        (s.setProcess p (some { process with localError := some text }))
  | retires {p : Nat} {process : Process} : s.live p = some process →
      CaptureStep cfg s (.retires p) (s.setProcess p (some { process with retired := true }))
  | begins {x p : Nat} : s.txs x = none → (s.live p).isSome →
      CaptureStep cfg s (.begins x p) (s.setTx x ⟨p, none, [], none, .active⟩)
  -- `before_flush`, in the epoch its state shows
  | admits {x : Nat} {tx : SourceTx} {process : Process} {d : DictState}
      {observedUtc token : String} : s.txs x = some tx →
      tx.phase = .active → tx.token = none → s.live tx.process = some process →
      replay cfg s.log = .ok d →
      s.Takes cfg observedUtc (.attempt token process.worker d.epoch none) →
      CaptureStep cfg s (.admits x observedUtc token)
        ((s.journal cfg observedUtc (.attempt token process.worker d.epoch none)).setTx x
          { tx with token := some token })
  -- without a token where `before_flush` has raised, or does nothing any more
  | inserts {x : Nat} {tx : SourceTx} {process : Process} {row : TradeFact} :
      s.txs x = some tx → tx.phase = .active →
      s.live tx.process = some process → tx.token.isSome ∨
      process.localError.isSome ∨ process.retired →
      epochMicros row.ingestedUtc = .ok s.now →
      CaptureStep cfg s (.inserts x row) (s.setTx x { tx with rows := tx.rows ++ [row] })
  | rollsBackTo {x : Nat} {tx : SourceTx} {rows : List TradeFact} : s.txs x = some tx →
      tx.phase = .active → rows.Sublist tx.rows →
      CaptureStep cfg s (.rollsBackTo x rows) (s.setTx x { tx with rows := rows })
  | rollsBack {x : Nat} {tx : SourceTx} : s.txs x = some tx → tx.phase = .active →
      CaptureStep cfg s (.rollsBack x) (s.setTx x { tx with phase := .aborted })
  | sends {x : Nat} {tx : SourceTx} (witness : Option CommitWitness) :
      s.txs x = some tx → tx.phase = .active →
      CaptureStep cfg s (.sends x witness) (s.setTx x { tx with phase := .sent, witness := witness })
  | commits {x : Nat} {tx : SourceTx} : s.txs x = some tx → tx.phase = .sent →
      CaptureStep cfg s (.commits x) { s.setTx x { tx with phase := .committed } with
        trades := s.trades ++ tx.rows }
  | refused {x : Nat} {tx : SourceTx} : s.txs x = some tx → tx.phase = .sent →
      CaptureStep cfg s (.refused x) (s.setTx x { tx with phase := .aborted })
  | enrolls {p : Nat} {process : Process} {observedUtc : String}
      {installation : Option String} : s.live p = some process →
      s.Takes cfg observedUtc (.enroll process.worker installation) →
      CaptureStep cfg s (.enrolls p observedUtc installation)
        (s.journal cfg observedUtc (.enroll process.worker installation))
  -- `control`
  | acknowledges {p : Nat} {process : Process} {d : DictState}
      {observedUtc : String} : s.live p = some process →
      process.blind = false → replay cfg s.log = .ok d →
      s.Takes cfg observedUtc (.ack process.worker d.epoch) →
      CaptureStep cfg s (.acknowledges p observedUtc)
        (s.journal cfg observedUtc (.ack process.worker d.epoch))
  -- `after_soft_rollback`
  | resolves {x : Nat} {tx : SourceTx} {token observedUtc : String} : s.txs x = some tx →
      tx.phase = .aborted → tx.token = some token →
      s.Takes cfg observedUtc (.rolledBack token) →
      CaptureStep cfg s (.resolves x observedUtc) (s.journal cfg observedUtc (.rolledBack token))
  -- the witness is seen in the database
  | recovers {x : Nat} {tx : SourceTx} {token observedUtc : String}
      {witness : CommitWitness} : s.txs x = some tx →
      tx.phase = .committed → tx.token = some token → tx.witness = some witness →
      s.Takes cfg observedUtc (.committed token witness) →
      CaptureStep cfg s (.recovers x observedUtc)
        (s.journal cfg observedUtc (.committed token witness))
  | closes {d : DictState} {observedUtc : String} : replay cfg s.log = .ok d →
      s.Takes cfg observedUtc (.close d.epoch (d.epoch + 1)) →
      CaptureStep cfg s (.closes observedUtc)
        (s.journal cfg observedUtc (.close d.epoch (d.epoch + 1)))
  | completes {d : DictState} {observedUtc : String} : replay cfg s.log = .ok d →
      s.Takes cfg observedUtc (.fence (cfg.receipt d)) →
      CaptureStep cfg s (.completes observedUtc) (s.journal cfg observedUtc (.fence (cfg.receipt d)))
  -- `freeze`, up to the comparison and from there
  | scans {d : DictState} : replay cfg s.log = .ok d → d.receipt.isSome →
      CaptureStep cfg s .scans { s with scans := s.scans ++ [s.scan cfg.binding] }
  | freezes {observedUtc : String} {population : Population} : population.sourceFacts ∈ s.scans →
      s.Takes cfg observedUtc (.freeze population) →
      CaptureStep cfg s (.freezes observedUtc population)
        (s.journal cfg observedUtc (.freeze population))
  | archives {observedUtc decision population : String} :
      s.Takes cfg observedUtc (.archive decision population) →
      CaptureStep cfg s (.archives observedUtc decision population)
        (s.journal cfg observedUtc (.archive decision population))
  | errs {observedUtc text : String} : s.Takes cfg observedUtc (.error text) →
      CaptureStep cfg s (.errs observedUtc text) (s.journal cfg observedUtc (.error text))

/-- An error has a text, and a process that does not observe any more does not die
with a COMMIT in doubt. -/
def Told (s : Capture) (e : CaptureEvent) (_ : Capture) : Prop :=
  match e with
  | .fails _ text => text ≠ ""
  | .crashes p => ∀ process, s.live p = some process → process.blind = true →
      ∀ x tx, s.txs x = some tx → tx.process = p → tx.phase ≠ .sent
  | _ => True

/-- ARM, and no process yet. -/
structure Start (cfg : Setup) (s : Capture) : Prop where
  armed : ∃ e, s.log = [e] ∧ ∃ d, replay (M := List Attempt) cfg s.log = .ok d
  txs : ∀ x, s.txs x = none
  live : ∀ p, s.live p = none
  scans : s.scans = []

/-! ## What a record does to the attempts -/

/-- Before CLOSE nothing is acknowledged, and every attempt is of the epoch 0. -/
def Early (d : DictState) : Prop := d.closed = none → d.acks = ∅ ∧ ∀ a ∈ d.attempts, a.epoch = 0

theorem Early.next {cfg : Setup} {d d' : DictState} {e : Event} (hinv : Inv cfg d) (h : Early d)
    (hs : Next cfg d e d') : Early d' := by
  have hput : ∀ a : Attempt, (d.closed = none → a.epoch = 0) →
      Early { d with attempts := AttemptMap.set a d.attempts } := by
    intro a ha hopen
    refine ⟨(h hopen).1, fun c hc => ?_⟩
    rcases Keyed.mem_put_of _ hc with rfl | hc
    · exact ha hopen
    · exact (h hopen).2 c hc
  have hended : ∀ {transactionId : String} {a : Attempt}, d.outstanding transactionId = some a →
      d.closed = none → a.epoch = 0 := by
    intro transactionId a ha hopen
    exact (h hopen).2 a (Keyed.find_some _ (outstanding_some ha).1).1
  cases hs with
  | enroll => exact h
  | attempt =>
    refine hput _ fun hopen => ?_
    have hepoch := hinv.epoch
    rwa [hopen] at hepoch
  | close => exact nofun
  | ack worker _ hclosed =>
    intro hopen
    rw [show d.closed = none from hopen] at hclosed
    cases hclosed
  | committed transactionId w a _ ha => exact hput _ fun hopen => (hended ha hopen : a.epoch = 0)
  | rolledBack transactionId a _ ha => exact hput _ fun hopen => (hended ha hopen : a.epoch = 0)
  | archive => exact h
  | error => exact h
  | fence => exact h
  | freeze => exact h

theorem replay_early {cfg : Setup} {log : List Event} {d : DictState}
    (h : replay cfg log = .ok d) : Early d := by
  have hall : Inv cfg d ∧ Early d := by
    refine replayFrom_inv (fun d => Inv cfg d ∧
      Early d) (fun d e d' hd hs => ⟨hd.1.next hs, hd.2.next hd.1 hs⟩) log
      ⟨Inv.initial cfg, fun _ => ⟨rfl, ?_⟩⟩ (replay_ok h)
    intro a ha
    cases ha
  exact hall.2

/-- The attempt a record ends. -/
def Payload.ends : Payload → Option String
  | .rolledBack token | .committed token _ => some token
  | _ => none

/-- What becomes of an attempt: it stays, in its epoch, and only its own record ends it. -/
theorem Next.attempt_kept {cfg : Setup} {d d' : DictState} {e : Event} (hs : Next cfg d e d')
    {token : String} {a : Attempt}
    (ha : Keyed.find Attempt.transactionId token d.attempts = some a) :
    ∃ a', Keyed.find Attempt.transactionId token d'.attempts = some a' ∧ a'.epoch = a.epoch ∧
      (a'.state ≠ .outstanding → a.state ≠ .outstanding ∨ e.payload.ends = some token) := by
  have hsame : ∃ a', Keyed.find Attempt.transactionId token d.attempts =
      some a' ∧ a'.epoch = a.epoch ∧
      (a'.state ≠ .outstanding → a.state ≠ .outstanding ∨ e.payload.ends = some token) :=
      ⟨a, ha, rfl, Or.inl⟩
  have hput : ∀ c : Attempt, (token = c.transactionId →
      c.epoch = a.epoch ∧ e.payload.ends = some token) →
      ∃ a', Keyed.find Attempt.transactionId token (AttemptMap.set c d.attempts) =
        some a' ∧ a'.epoch = a.epoch ∧
        (a'.state ≠ .outstanding → a.state ≠ .outstanding ∨ e.payload.ends = some token) := by
    intro c hc
    by_cases htoken : c.transactionId = token
    · exact ⟨c, (Keyed.find_put _ _ _ _).trans (if_pos htoken), (hc htoken.symm).1,
        fun _ => Or.inr (hc htoken.symm).2⟩
    · exact ⟨a, (Keyed.find_put _ _ _ _).trans ((if_neg htoken).trans ha), rfl, Or.inl⟩
  have hended : ∀ {transactionId : String} {c : Attempt} (state : AttemptState),
      d.outstanding transactionId = some c →
      e.payload.ends = some transactionId →
      token = ({ c with state := state } : Attempt).transactionId →
      ({ c with state := state } : Attempt).epoch = a.epoch ∧ e.payload.ends = some token := by
    intro transactionId c state hc hends htoken
    obtain ⟨hfind, -⟩ := outstanding_some hc
    obtain ⟨-, hkey⟩ := Keyed.find_some _ hfind
    have hid : token = transactionId := htoken.trans hkey
    rw [← hid, ha] at hfind
    rw [← Option.some.inj hfind, hid]
    exact ⟨rfl, hends⟩
  cases hs with
  | enroll => exact hsame
  | attempt transactionId worker retryOf _ _ _ hnew =>
    refine hput _ fun htoken => ?_
    rw [show token = transactionId from htoken, show Keyed.find _ _ _ = none from hnew] at ha
    cases ha
  | close => exact hsame
  | ack => exact hsame
  | committed transactionId w c hp hc => exact hput _ (hended _ hc (by rw [hp]; rfl))
  | rolledBack transactionId c hp hc => exact hput _ (hended _ hc (by rw [hp]; rfl))
  | archive => exact hsame
  | error => exact hsame
  | fence => exact hsame
  | freeze => exact hsame

/-- An attempt that is new is the one the record admits. -/
theorem Next.attempt_new {cfg : Setup} {d d' : DictState} {e : Event} (hs : Next cfg d e d')
    {token worker : String} {epoch : Nat} (hp : e.payload = .attempt token worker epoch none) :
    Keyed.find Attempt.transactionId token d.attempts = none ∧
      Keyed.find Attempt.transactionId token d'.attempts =
        some ⟨token, worker, epoch, none, .outstanding, e.observedUtc⟩ := by
  cases hs with
  | attempt transactionId worker' retryOf hp' _ _ hnew =>
    obtain ⟨rfl, rfl, rfl, rfl⟩ := Payload.attempt.inj (hp'.symm.trans hp)
    exact ⟨hnew, (Keyed.find_put _ _ _ _).trans (if_pos rfl)⟩
  | _ => simp_all

/-- FENCE and CLOSE stay. -/
theorem Next.kept {cfg : Setup} {d d' : DictState} {e : Event} (hs : Next cfg d e d') :
    (d.receipt.isSome → d'.receipt.isSome) ∧
      (d'.closed.isSome → d.closed.isSome ∨
        after e.observedUtc cfg.binding.window.endUtc = .ok true) ∧
      ∀ worker ∈ d'.acks, worker ∈ d.acks ∨ ∃ epoch, e.payload = .ack worker epoch := by
  cases hs with
  | close _ _ hafter => exact ⟨id, fun _ => Or.inr hafter, fun _ => Or.inl⟩
  | ack worker hp =>
    refine ⟨id, Or.inl, fun other hother => ?_⟩
    rcases Finset.mem_insert.mp hother with rfl | hother
    · exact Or.inr ⟨_, hp⟩
    · exact Or.inl hother
  | fence => exact ⟨fun _ => rfl, Or.inl, fun _ => Or.inl⟩
  | _ => exact ⟨id, Or.inl, fun _ => Or.inl⟩

/-! ## The invariant -/

/-- An undecided transaction is admitted under the epoch 0, or its process is blind and
has not acknowledged. -/
def Capture.Watched (s : Capture) (d : DictState) (tx : SourceTx) : Prop :=
  (∃ token a, tx.token = some token ∧
    Keyed.find Attempt.transactionId token d.attempts = some a ∧ a.epoch = 0) ∨
    ∃ process, s.live tx.process = some process ∧ process.blind = true ∧ process.worker ∉ d.acks

structure Sound (cfg : Setup) (s : Capture) (d : DictState) : Prop where
  replayed : replay cfg s.log = .ok d
  clock : d.closed.isSome → ∃ stop, epochMicros cfg.binding.window.endUtc = .ok stop ∧ stop < s.now
  workers : ∀ p process, s.live p = some process → process.worker ∈ cfg.binding.expectedWorkers
  alone : ∀ p q process other, s.live p = some process → s.live q = some other →
    process.worker = other.worker → p = q
  worded : ∀ p process text, s.live p = some process → process.localError = some text → text ≠ ""
  admitted : ∀ x tx token, s.txs x = some tx → tx.token = some token →
    ∃ a, Keyed.find Attempt.transactionId token d.attempts = some a ∧
    (a.state ≠ .outstanding → tx.phase.decided = true)
  single : ∀ x y tx ty token, s.txs x = some tx → s.txs y = some ty → tx.token = some token →
    ty.token = some token → x = y
  watched : ∀ x tx, s.txs x = some tx → tx.phase.decided = false →
    ∀ row ∈ tx.rows, inFrozen cfg.binding row = true → s.Watched d tx
  scanned : ∀ facts ∈ s.scans, d.receipt.isSome ∧ facts = s.scan cfg.binding
  frozen : ∀ e ∈ s.log, ∀ population, e.payload = .freeze population →
    population.sourceFacts ∈ s.scans

theorem Process.blind_of_error {process : Process} {text : String}
    (h : process.localError = some text) (htext : text ≠ "") :
    process.blind = true := by
  unfold Process.blind truthy
  simp [h, htext]

theorem inFrozen_clock {b : Binding} {row : TradeFact}
    {ingested stop : Int} (h : inFrozen b row = true)
    (hrow : epochMicros row.ingestedUtc = .ok ingested)
    (hstop : epochMicros b.window.endUtc = .ok stop) : ingested ≤ stop := by
  unfold inFrozen inPopulation inWindow at h
  split at h
  · rw [hstop, hrow] at h
    cases hstart : epochMicros b.window.startUtc with
    | error text =>
      rw [hstart] at h
      exact absurd (of_decide_eq_true h) nofun
    | ok start =>
      rw [hstart] at h
      change decide ((if stop < start then Except.error reversedError
        else Except.ok (decide (start ≤ ingested ∧ ingested ≤ stop))) = Except.ok true) = true at h
      have h := of_decide_eq_true h
      split at h
      · cases h
      · exact (of_decide_eq_true (Except.ok.inj h)).2
  · exact absurd (of_decide_eq_true h) nofun

/-- After FENCE no undecided transaction has a row of the window. -/
theorem Sound.drained {cfg : Setup} {s : Capture} {d : DictState} (h : Sound cfg s d)
    (hreceipt : d.receipt.isSome) {x : Nat} {tx : SourceTx} (hx : s.txs x = some tx)
    (hopen : tx.phase.decided = false) :
    tx.rows.filter (inFrozen cfg.binding) = [] := by
  rw [List.filter_eq_nil_iff]
  intro row hrow hin
  obtain ⟨-, hacks, hresolved⟩ := (replay_inv h.replayed).fenced hreceipt
  rcases h.watched x tx hx hopen row hrow hin with
    ⟨token, a, htoken, ha, hepoch⟩ | ⟨process, hlive, -, hunacked⟩
  · obtain ⟨a', ha', hdecided⟩ := h.admitted x tx token hx htoken
    obtain rfl := Option.some.inj (ha.symm.trans ha')
    have hstate := hresolved a (Keyed.find_some _ ha).1 hepoch
    rw [hdecided hstate] at hopen
    cases hopen
  · rw [hacks] at hunacked
    exact hunacked (List.mem_toFinset.mpr (h.workers _ _ hlive))

/-- A row ingested in the window is inserted before CLOSE. -/
theorem Sound.open_of_row {cfg : Setup} {s : Capture} {d : DictState}
    (h : Sound cfg s d) {row : TradeFact} (hin : inFrozen cfg.binding row = true)
    (hrow : epochMicros row.ingestedUtc = .ok s.now) :
    d.closed = none ∧ d.acks = ∅ ∧ ∀ a ∈ d.attempts, a.epoch = 0 := by
  have hopen : d.closed = none := by
    by_contra hclosed
    obtain ⟨stop, hstop, hlt⟩ := h.clock (Option.isSome_iff_ne_none.mpr hclosed)
    have hle := inFrozen_clock hin hrow hstop
    omega
  exact ⟨hopen, replay_early h.replayed hopen⟩

/-! ## One step -/

theorem Start.sound {cfg : Setup} {s : Capture} (h : Start cfg s) : ∃ d, Sound cfg s d := by
  obtain ⟨e, hlog, d, hd⟩ := h.armed
  have hrun := (replay_eq_ok.mp hd).2
  rw [hlog] at hrun
  obtain ⟨t, ht, hrest⟩ := bind_ok hrun
  obtain rfl := Except.ok.inj hrest
  obtain ⟨-, -, -, -, ⟨-, harm, rfl⟩ | ⟨hfirst, -⟩⟩ := replayOne_cases ht
  · refine ⟨_, hd, nofun, ?_, ?_, ?_, ?_, ?_, ?_, ?_, ?_⟩
    · intro p process hp
      rw [h.live p] at hp
      cases hp
    · intro p q process other hp
      rw [h.live p] at hp
      cases hp
    · intro p process text hp
      rw [h.live p] at hp
      cases hp
    · intro x tx token hx
      rw [h.txs x] at hx
      cases hx
    · intro x y tx ty token hx
      rw [h.txs x] at hx
      cases hx
    · intro x tx hx
      rw [h.txs x] at hx
      cases hx
    · intro facts hfacts
      rw [h.scans] at hfacts
      cases hfacts
    · intro e' he' population hp
      rw [hlog] at he'
      obtain rfl := List.mem_singleton.mp he'
      unfold Setup.arm at harm
      obtain ⟨⟨⟩, harm, -⟩ := bind_ok_iff.mp harm
      have harm := not_not.mp (raiseIf_ok_iff.mp harm)
      rw [hp] at harm
      cases harm
  · exact absurd rfl hfirst

/-- A record is appended. -/
theorem Sound.journal {cfg : Setup} {s : Capture} {d : DictState} (h : Sound cfg s d)
    {observedUtc : String} {payload : Payload} (ht : s.Takes cfg observedUtc payload)
    (hends : ∀ token, payload.ends = some token → ∀ x tx, s.txs x = some tx →
      tx.token = some token → tx.phase.decided = true)
    (hack : ∀ worker epoch, payload = .ack worker epoch → ∀ p process, s.live p = some process →
      process.worker = worker → process.blind = false)
    (hfreeze : ∀ population, payload = .freeze population → population.sourceFacts ∈ s.scans) :
    ∃ d', Next cfg d (cfg.record s.log observedUtc payload) d' ∧
    Sound cfg (s.journal cfg observedUtc payload) d' := by
  obtain ⟨⟨observed, hobserved, hpast⟩, d', hd'⟩ := ht
  have hne := (replay_eq_ok.mp h.replayed).1
  obtain ⟨-, -, -, hpayload, hutc⟩ := record_fields cfg s.log observedUtc payload
  have hnext : Next cfg d (cfg.record s.log observedUtc payload) d' := by
    rw [replay_snoc h.replayed] at hd'
    obtain ⟨-, -, -, -, ⟨hfirst, -, -⟩ | ⟨-, hnext⟩⟩ := replayOne_cases hd'
    · have := List.length_pos_iff.mpr hne
      omega
    · exact hnext
  obtain ⟨hreceipt, hclosed, hacks⟩ := hnext.kept
  rw [hutc] at hclosed
  rw [hpayload] at hacks
  have hkept := fun {token a} => @Next.attempt_kept cfg d d' _ hnext token a
  rw [hpayload] at hkept
  refine ⟨d', hnext, hd', ?_, h.workers, h.alone, h.worded, ?_, h.single, ?_, ?_, ?_⟩
  · intro hc
    rcases hclosed hc with hc | hafter
    · exact h.clock hc
    · unfold after at hafter
      rw [hobserved] at hafter
      change (epochMicros cfg.binding.window.endUtc).bind _ = _ at hafter
      obtain ⟨stop, hstop, hlt⟩ := LogFold.bind_ok hafter
      refine ⟨stop, hstop, ?_⟩
      have hlt := of_decide_eq_true (Except.ok.inj hlt)
      show stop < s.now
      omega
  · intro x tx token hx htoken
    obtain ⟨a, ha, hdecided⟩ := h.admitted x tx token hx htoken
    obtain ⟨a', ha', -, hstate⟩ := hkept ha
    refine ⟨a', ha', fun hended => ?_⟩
    rcases hstate hended with hbefore | hnow
    · exact hdecided hbefore
    · exact hends token hnow x tx hx htoken
  · intro x tx hx hopen row hrow hin
    rcases h.watched x tx hx hopen row hrow hin with
    ⟨token, a, htoken, ha, hepoch⟩ | ⟨process, hlive, hblind, hunacked⟩
    · obtain ⟨a', ha', hepoch', -⟩ := hkept ha
      exact Or.inl ⟨token, a', htoken, ha', hepoch'.trans hepoch⟩
    · refine Or.inr ⟨process, hlive, hblind, fun hacked => ?_⟩
      rcases hacks _ hacked with hbefore | ⟨epoch, hp⟩
      · exact hunacked hbefore
      · rw [hack _ epoch hp _ process hlive rfl] at hblind
        cases hblind
  · intro facts hfacts
    obtain ⟨hbefore, hscan⟩ := h.scanned facts hfacts
    exact ⟨hreceipt hbefore, hscan⟩
  · intro e he population hp
    rcases List.mem_append.mp he with he | he
    · exact h.frozen e he population hp
    · obtain rfl := List.mem_singleton.mp he
      exact hfreeze population (hpayload.symm.trans hp)

/-- A transaction begins, or goes on. -/
theorem Sound.setTx {cfg : Setup} {s : Capture} {d : DictState}
    (h : Sound cfg s d) (x : Nat) {tx : SourceTx}
    (hadmitted : ∀ token, tx.token = some token →
      ∃ a, Keyed.find Attempt.transactionId token d.attempts = some a ∧
      (a.state ≠ .outstanding → tx.phase.decided = true))
    (hsingle : ∀ token, tx.token = some token → ∀ y ty, y ≠ x →
      s.txs y = some ty → ty.token ≠ some token)
    (hwatched : tx.phase.decided = false → ∀ row ∈ tx.rows,
      inFrozen cfg.binding row = true → s.Watched d tx) :
    Sound cfg (s.setTx x tx) d := by
  refine ⟨h.replayed, h.clock, h.workers, h.alone, h.worded, ?_, ?_, ?_, h.scanned, h.frozen⟩
  · intro y ty token hy htoken
    by_cases hyx : y = x
    · subst hyx
      obtain rfl := Option.some.inj ((s.setTx_self y tx).symm.trans hy)
      exact hadmitted token htoken
    · exact h.admitted y ty token ((s.setTx_other tx hyx).symm.trans hy) htoken
  · intro y z ty tz token hy hz hty htz
    by_cases hyx : y = x
    · subst hyx
      obtain rfl := Option.some.inj ((s.setTx_self y tx).symm.trans hy)
      by_contra hzy
      exact hsingle token hty z tz (Ne.symm hzy) ((s.setTx_other tx (Ne.symm hzy)).symm.trans hz) htz
    · have hy' := (s.setTx_other tx hyx).symm.trans hy
      by_cases hzx : z = x
      · subst hzx
        obtain rfl := Option.some.inj ((s.setTx_self z tx).symm.trans hz)
        exact absurd hty (hsingle token htz y ty hyx hy')
      · exact h.single y z ty tz token hy' ((s.setTx_other tx hzx).symm.trans hz) hty htz
  · intro y ty hy hopen row hrow hin
    by_cases hyx : y = x
    · subst hyx
      obtain rfl := Option.some.inj ((s.setTx_self y tx).symm.trans hy)
      exact hwatched hopen row hrow hin
    · exact h.watched y ty ((s.setTx_other tx hyx).symm.trans hy) hopen row hrow hin

/-- … with no new row, and decided once it is. -/
theorem Sound.update {cfg : Setup} {s : Capture} {d : DictState} (h : Sound cfg s d)
    {x : Nat} {tx tx' : SourceTx} (hx : s.txs x = some tx) (htoken : tx'.token = tx.token)
    (hprocess : tx'.process = tx.process) (hphase : tx.phase.decided = false)
    (hrows : ∀ row ∈ tx'.rows, row ∈ tx.rows) :
    Sound cfg (s.setTx x tx') d := by
  refine h.setTx x ?_ ?_ ?_
  · intro token ht
    rw [htoken] at ht
    obtain ⟨a, ha, hdecided⟩ := h.admitted x tx token hx ht
    refine ⟨a, ha, fun hstate => ?_⟩
    rw [hdecided hstate] at hphase
    cases hphase
  · intro token ht y ty hyx hy hty
    rw [htoken] at ht
    exact hyx (h.single y x ty tx token hy hx hty ht)
  · intro _ row hrow hin
    have hw := h.watched x tx hx hphase row (hrows row hrow) hin
    unfold Capture.Watched at hw ⊢
    rwa [htoken, hprocess]

/-- A process starts, or stops observing. -/
theorem Sound.setProcess {cfg : Setup} {s : Capture} {d : DictState} (h : Sound cfg s d)
    {p : Nat} {process : Process} (hworker : process.worker ∈ cfg.binding.expectedWorkers)
    (halone : ∀ q other, q ≠ p → s.live q = some other → other.worker ≠ process.worker)
    (hworded : ∀ text, process.localError = some text → text ≠ "")
    (hblind : ∀ before, s.live p = some before → before.blind = true →
      process.blind = true ∧ process.worker = before.worker) :
    Sound cfg (s.setProcess p (some process)) d := by
  have hlive : ∀ {q other}, (s.setProcess p (some process)).live q = some other →
      (q = p ∧ other = process) ∨ (q ≠ p ∧ s.live q = some other) := by
    intro q other hq
    by_cases hqp : q = p
    · subst hqp
      exact Or.inl ⟨rfl, (Option.some.inj ((s.setProcess_self q (some process)).symm.trans hq)).symm⟩
    · exact Or.inr ⟨hqp, (s.setProcess_other (some process) hqp).symm.trans hq⟩
  refine ⟨h.replayed, h.clock, ?_, ?_, ?_, h.admitted, h.single, ?_, h.scanned, h.frozen⟩
  · intro q other hq
    rcases hlive hq with ⟨-, rfl⟩ | ⟨-, hq⟩
    · exact hworker
    · exact h.workers q other hq
  · intro q r other third hq hr hsame
    rcases hlive hq with ⟨hqp, hother⟩ | ⟨hqp, hother⟩
    · rcases hlive hr with ⟨hrp, -⟩ | ⟨hrp, hthird⟩
      · rw [hqp, hrp]
      · exact absurd hsame.symm (hother ▸ halone r third hrp hthird)
    · rcases hlive hr with ⟨-, hthird⟩ | ⟨-, hthird⟩
      · exact absurd hsame (hthird ▸ halone q other hqp hother)
      · exact h.alone q r other third hother hthird hsame
  · intro q other text hq htext
    rcases hlive hq with ⟨-, rfl⟩ | ⟨-, hq⟩
    · exact hworded text htext
    · exact h.worded q other text hq htext
  · intro x tx hx hopen row hrow hin
    rcases h.watched x tx hx hopen row hrow hin with hadmitted | ⟨before, hbefore, hb, hunacked⟩
    · exact Or.inl hadmitted
    · by_cases hp : tx.process = p
      · rw [hp] at hbefore
        obtain ⟨hb', hsame⟩ := hblind before hbefore hb
        refine Or.inr ⟨process, ?_, hb', hsame ▸ hunacked⟩
        rw [hp]
        exact s.setProcess_self p (some process)
      · exact Or.inr ⟨before, (s.setProcess_other (some process) hp).trans hbefore, hb, hunacked⟩

theorem abort_token (p : Nat) (tx : SourceTx) : (abort p tx).token = tx.token ∧
    (abort p tx).rows = tx.rows ∧ (abort p tx).process = tx.process := by
  unfold abort
  split <;> exact ⟨rfl, rfl, rfl⟩

theorem abort_decided {p : Nat} {tx : SourceTx} :
    (tx.phase.decided = true → (abort p tx).phase.decided = true) ∧
      ((abort p tx).phase.decided = false → tx.phase.decided = false ∧
        (tx.process = p → tx.phase = .sent)) := by
  unfold abort
  split
  · exact ⟨fun _ => rfl, nofun⟩
  · next hnot =>
    refine ⟨id, fun hopen => ⟨hopen, fun hp => ?_⟩⟩
    cases hphase : tx.phase with
    | active => exact absurd ⟨hp, hphase⟩ hnot
    | sent => rfl
    | committed =>
      rw [hphase] at hopen
      cases hopen
    | aborted =>
      rw [hphase] at hopen
      cases hopen

/-- A process dies. -/
theorem Sound.crash {cfg : Setup} {s : Capture} {d : DictState} (h : Sound cfg s d) (p : Nat)
    (htold : ∀ process, s.live p = some process → process.blind = true → ∀ x tx, s.txs x = some tx →
      tx.process = p → tx.phase ≠ .sent) :
    Sound cfg { s.setProcess p none with txs := fun x => (s.txs x).map (abort p) } d := by
  have hlive : ∀ {q other}, (s.setProcess p none).live q = some other →
      s.live q = some other ∧ q ≠ p := by
    intro q other hq
    by_cases hqp : q = p
    · subst hqp
      rw [s.setProcess_self q none] at hq
      cases hq
    · exact ⟨(s.setProcess_other none hqp).symm.trans hq, hqp⟩
  have htx : ∀ {x : Nat} {tx : SourceTx}, (s.txs x).map (abort p) = some tx →
      ∃ before, s.txs x = some before ∧ tx = abort p before := by
    intro x tx hx
    obtain ⟨before, hbefore, rfl⟩ := Option.map_eq_some_iff.mp hx
    exact ⟨before, hbefore, rfl⟩
  refine ⟨h.replayed, h.clock, ?_, ?_, ?_, ?_, ?_, ?_, h.scanned, h.frozen⟩
  · intro q other hq
    exact h.workers q other (hlive hq).1
  · intro q r other third hq hr
    exact h.alone q r other third (hlive hq).1 (hlive hr).1
  · intro q other text hq
    exact h.worded q other text (hlive hq).1
  · intro x tx token hx htoken
    obtain ⟨before, hbefore, rfl⟩ := htx hx
    rw [(abort_token p before).1] at htoken
    obtain ⟨a, ha, hdecided⟩ := h.admitted x before token hbefore htoken
    exact ⟨a, ha, fun hstate => abort_decided.1 (hdecided hstate)⟩
  · intro x y tx ty token hx hy htx' hty'
    obtain ⟨before, hbefore, rfl⟩ := htx hx
    obtain ⟨other, hother, rfl⟩ := htx hy
    rw [(abort_token p before).1] at htx'
    rw [(abort_token p other).1] at hty'
    exact h.single x y before other token hbefore hother htx' hty'
  · intro x tx hx hopen row hrow hin
    obtain ⟨before, hbefore, rfl⟩ := htx hx
    obtain ⟨htoken, hrows, hprocess⟩ := abort_token p before
    obtain ⟨hopen, hsent⟩ := abort_decided.2 hopen
    rw [hrows] at hrow
    rcases h.watched x before hbefore hopen row hrow hin with
    ⟨token, a, ht, ha, hepoch⟩ | ⟨process, hprocess', hblind, hunacked⟩
    · exact Or.inl ⟨token, a, htoken.trans ht, ha, hepoch⟩
    · by_cases hp : before.process = p
      · rw [hp] at hprocess'
        exact absurd (hsent hp) (htold process hprocess' hblind x before hbefore hp)
      · refine Or.inr ⟨process, ?_, hblind, hunacked⟩
        rw [hprocess]
        exact (s.setProcess_other none hp).trans hprocess'

theorem Sound.step {cfg : Setup} {s t : Capture} {ev : CaptureEvent} {d : DictState}
    (h : Sound cfg s d) (hs : CaptureStep cfg s ev t)
    (htold : Told s ev t) : ∃ d', Sound cfg t d' := by
  have hplain : ∀ {observedUtc : String} {payload : Payload}, s.Takes cfg observedUtc payload →
      payload.ends = none →
      (∀ worker epoch, payload ≠ .ack worker epoch) → (∀ population, payload ≠ .freeze population) →
      ∃ d', Sound cfg (s.journal cfg observedUtc payload) d' := by
    intro observedUtc payload ht hends hack hfreeze
    obtain ⟨d', -, hd'⟩ := h.journal ht (fun token he => absurd (hends.symm.trans he) nofun)
      (fun worker epoch he => absurd he (hack worker epoch))
      fun population he => absurd he (hfreeze population)
    exact ⟨d', hd'⟩
  cases hs with
  | tick hle =>
    refine ⟨d, h.replayed, fun hclosed => ?_, h.workers, h.alone, h.worded, h.admitted, h.single,
      h.watched, h.scanned, h.frozen⟩
    obtain ⟨stop, hstop, hlt⟩ := h.clock hclosed
    exact ⟨stop, hstop, lt_of_lt_of_le hlt hle⟩
  | @starts p worker installed hnone halone hexpected =>
    refine ⟨d, h.setProcess hexpected (fun q other _ => halone q other) nofun
      fun before hbefore => ?_⟩
    rw [hnone] at hbefore
    cases hbefore
  | crashes p => exact ⟨d, h.crash p htold⟩
  | @fails p process text hp =>
    have htext : text ≠ "" := htold
    refine ⟨d, h.setProcess (h.workers p process hp) ?_ ?_ ?_⟩
    · intro q other hq hother hsame
      exact hq (h.alone q p other process hother hp hsame)
    · intro text' he
      exact Option.some.inj he ▸ htext
    · intro before hbefore _
      obtain rfl := Option.some.inj (hp.symm.trans hbefore)
      exact ⟨Process.blind_of_error rfl htext, rfl⟩
  | @retires p process hp =>
    refine ⟨d, h.setProcess (h.workers p process hp) ?_ ?_ ?_⟩
    · intro q other hq hother hsame
      exact hq (h.alone q p other process hother hp hsame)
    · exact fun text => h.worded p process text hp
    · intro before hbefore _
      obtain rfl := Option.some.inj (hp.symm.trans hbefore)
      exact ⟨Bool.or_true _, rfl⟩
  | @begins x p hx =>
    refine ⟨d, h.setTx x nofun nofun fun _ row hrow => ?_⟩
    cases hrow
  | @admits x tx process d₀ observedUtc token hx hactive hnone hlive hd₀ ht =>
    obtain rfl := Except.ok.inj (h.replayed.symm.trans hd₀)
    obtain ⟨d', hnext, hd'⟩ := h.journal ht nofun nofun nofun
    obtain ⟨-, -, -, hpayload, -⟩ :=
      record_fields cfg s.log observedUtc (.attempt token process.worker d.epoch none)
    obtain ⟨hfresh, hnew⟩ := hnext.attempt_new hpayload
    refine ⟨d', hd'.setTx x ?_ ?_ ?_⟩
    · intro token' he
      obtain rfl := Option.some.inj he
      exact ⟨_, hnew, fun hstate => absurd rfl hstate⟩
    · intro token' he y ty _ hy hty
      obtain rfl := Option.some.inj he
      obtain ⟨a, ha, -⟩ := h.admitted y ty token hy hty
      rw [hfresh] at ha
      cases ha
    · intro _ row hrow hin
      -- a row it has already was inserted by a blind process
      rcases hd'.watched x tx hx (by rw [hactive]; rfl) row hrow hin with
        ⟨token', a, htoken, -⟩ | hblind
      · rw [hnone] at htoken
        cases htoken
      · exact Or.inr hblind
  | @inserts x tx process row hx hactive hlive hseen hrow =>
    refine ⟨d, h.setTx x ?_ ?_ ?_⟩
    · exact fun token ht => h.admitted x tx token hx ht
    · intro token ht y ty hyx hy hty
      exact hyx (h.single y x ty tx token hy hx hty ht)
    · intro _ row' hrow' hin
      rcases List.mem_append.mp hrow' with hold | hnew
      · exact h.watched x tx hx (by rw [hactive]; rfl) row' hold hin
      · obtain rfl := List.mem_singleton.mp hnew
        obtain ⟨-, hacks, hepochs⟩ := h.open_of_row hin hrow
        have hblind : process.blind = true → s.Watched d { tx with rows := tx.rows ++ [row'] } := by
          intro hb
          refine Or.inr ⟨process, hlive, hb, ?_⟩
          rw [hacks]
          exact Finset.notMem_empty _
        rcases hseen with htoken | herror | hretired
        · obtain ⟨token, htoken⟩ := Option.isSome_iff_exists.mp htoken
          obtain ⟨a, ha, -⟩ := h.admitted x tx token hx htoken
          exact Or.inl ⟨token, a, htoken, ha, hepochs a (Keyed.find_some _ ha).1⟩
        · obtain ⟨text, htext⟩ := Option.isSome_iff_exists.mp herror
          exact hblind (Process.blind_of_error htext (h.worded _ _ text hlive htext))
        · exact hblind (by unfold Process.blind; rw [hretired]; exact Bool.or_true _)
  | rollsBackTo hx hactive hrows =>
    exact ⟨d, h.update hx rfl rfl (by rw [hactive]; rfl) fun row hrow => hrows.mem hrow⟩
  | rollsBack hx hactive => exact ⟨d, h.update hx rfl rfl (by rw [hactive]; rfl) fun _ => id⟩
  | sends witness hx hactive => exact ⟨d, h.update hx rfl rfl (by rw [hactive]; rfl) fun _ => id⟩
  | @commits x tx hx hsent =>
    have hopen : tx.phase.decided = false := by
      rw [hsent]
      rfl
    have hu : Sound cfg (s.setTx x { tx with phase := .committed }) d :=
      h.update hx rfl rfl hopen fun _ => id
    refine ⟨d, hu.replayed, hu.clock, hu.workers, hu.alone, hu.worded, hu.admitted, hu.single,
      hu.watched, fun facts hfacts => ?_, hu.frozen⟩
    obtain ⟨hreceipt, hscan⟩ := h.scanned facts hfacts
    refine ⟨hreceipt, ?_⟩
    rw [hscan]
    unfold Capture.scan
    show _ = sortFacts ((s.trades ++ tx.rows).filter _)
    rw [List.filter_append, h.drained hreceipt hx hopen, List.append_nil]
  | refused hx hsent => exact ⟨d, h.update hx rfl rfl (by rw [hsent]; rfl) fun _ => id⟩
  | enrolls _ ht => exact hplain ht rfl nofun nofun
  | @acknowledges p process d₀ observedUtc hlive hseeing _ ht =>
    obtain ⟨d', -, hd'⟩ := h.journal ht nofun (fun worker epoch he q other hq hsame => by
      obtain ⟨rfl, -⟩ := Payload.ack.inj he
      obtain rfl := h.alone q p other process hq hlive hsame
      rwa [Option.some.inj (hq.symm.trans hlive)]) nofun
    exact ⟨d', hd'⟩
  | @resolves x tx token observedUtc hx haborted htoken ht =>
    obtain ⟨d', -, hd'⟩ := h.journal ht (fun token' he y ty hy hty => by
      obtain rfl := Option.some.inj he
      obtain rfl := h.single y x ty tx token hy hx hty htoken
      rw [← Option.some.inj (hx.symm.trans hy), haborted]
      rfl) nofun nofun
    exact ⟨d', hd'⟩
  | @recovers x tx token observedUtc witness hx hcommitted htoken _ ht =>
    obtain ⟨d', -, hd'⟩ := h.journal ht (fun token' he y ty hy hty => by
      obtain rfl := Option.some.inj he
      obtain rfl := h.single y x ty tx token hy hx hty htoken
      rw [← Option.some.inj (hx.symm.trans hy), hcommitted]
      rfl) nofun nofun
    exact ⟨d', hd'⟩
  | closes _ ht => exact hplain ht rfl nofun nofun
  | completes _ ht => exact hplain ht rfl nofun nofun
  | @scans d₀ hd₀ hreceipt =>
    obtain rfl := Except.ok.inj (h.replayed.symm.trans hd₀)
    refine ⟨d, h.replayed, h.clock, h.workers, h.alone, h.worded, h.admitted, h.single,
      h.watched, fun facts hfacts => ?_,
      fun e he population hp => List.mem_append_left _ (h.frozen e he population hp)⟩
    rcases List.mem_append.mp hfacts with hfacts | hfacts
    · exact h.scanned facts hfacts
    · exact ⟨hreceipt, List.mem_singleton.mp hfacts⟩
  | @freezes observedUtc population hfacts ht =>
    obtain ⟨d', -, hd'⟩ := h.journal ht nofun nofun fun other he => by
      obtain rfl := Payload.freeze.inj he
      exact hfacts
    exact ⟨d', hd'⟩
  | archives ht => exact hplain ht rfl nofun nofun
  | errs ht => exact hplain ht rfl nofun nofun

/-! ## What FREEZE holds -/

theorem capture_sound {cfg : Setup} {s t : Capture} {tr : List (CaptureEvent × Capture)}
    (h : Run (CaptureStep cfg) s tr t) (htold : Each Told s tr)
    (hs : Start cfg s) : ∃ d, Sound cfg t d :=
  (h.inv_each (fun s => ∃ d, Sound cfg s d) (fun _ _ _ hd hs hq => hd.elim fun _ hd =>
    hd.step hs hq) htold hs.sound).1

def rehearsalWitness : CommitWitness := ⟨"t", "rehearsal", "bot:a", 0, [rehearsalTrade]⟩

/-- The run behind the journal of the rehearsal, move by move. -/
def rehearsalMoves : List (Capture → Capture) := [
  fun s => s.setProcess 0 (some ⟨"bot:a", none, false⟩),
  fun s => s.setProcess 1 (some ⟨"backend:b", none, false⟩),
  fun s => s.journal rehearsal "2025-12-31T23:10:00Z" (.enroll "bot:a" (some "installed bot:a")),
  fun s => s.journal rehearsal "2025-12-31T23:20:00Z"
    (.enroll "backend:b" (some "installed backend:b")),
  fun s => { s with now := 1767268800000000 },
  fun s => s.setTx 0 ⟨0, none, [], none, .active⟩,
  fun s => (s.journal rehearsal "2026-01-01T11:00:00Z" (.attempt "t" "bot:a" 0 none)).setTx 0
    ⟨0, some "t", [], none, .active⟩,
  fun s => s.setTx 0 ⟨0, some "t", [rehearsalTrade], none, .active⟩,
  fun s => s.setTx 0 ⟨0, some "t", [rehearsalTrade], some rehearsalWitness, .sent⟩,
  fun s => { s.setTx 0 ⟨0, some "t", [rehearsalTrade], some rehearsalWitness, .committed⟩ with
    trades := s.trades ++ [rehearsalTrade] },
  fun s => { s with now := 1767312060000000 },
  fun s => s.journal rehearsal "2026-01-01T13:00:00Z" (.committed "t" rehearsalWitness),
  fun s => s.journal rehearsal "2026-01-02T00:00:00.5Z" (.close 0 1),
  fun s => s.journal rehearsal "2026-01-02T00:00:01Z" (.ack "bot:a" 1),
  fun s => s.journal rehearsal "2026-01-02T00:00:02Z" (.ack "backend:b" 1),
  fun s => s.journal rehearsal "2026-01-02T00:00:03Z" (.fence rehearsalReceipt),
  fun s => { s with scans := s.scans ++ [s.scan rehearsal.binding] },
  fun s => s.journal rehearsal "2026-01-02T00:00:05Z" (.freeze rehearsalPopulation)]

def rehearsalState (n : Nat) : Capture :=
  (rehearsalMoves.take n).foldl (fun s move => move s)
    ⟨1767223800000000, rehearse [("2025-12-31T23:00:00Z", .arm rehearsal.binding)], [],
      fun _ => none, fun _ => none, []⟩

theorem replay_value {α : Type} (log : List Event) (f : DictState → α) (v : α)
    (h : (replay (M := List Attempt) rehearsal log).map f = .ok v) :
    ∃ d, replay rehearsal log = .ok d ∧ f d = v := by
  cases hd : replay (M := List Attempt) rehearsal log with
  | error text =>
    rw [hd] at h
    cases h
  | ok d =>
    rw [hd] at h
    exact ⟨d, rfl, Except.ok.inj h⟩

theorem rehearsal_takes {s : Capture} {observedUtc : String} {payload : Payload}
    (hclock : ((epochMicros observedUtc).toOption.any fun observed => observed ≤ s.now) = true)
    (hlog : (replay (M := List Attempt) rehearsal
      (s.log ++ [rehearsal.record s.log observedUtc payload])).toBool = true) :
    s.Takes rehearsal observedUtc payload := by
  refine ⟨?_, exists_ok hlog⟩
  cases h : epochMicros observedUtc with
  | error text =>
    rw [h] at hclock
    cases hclock
  | ok observed =>
    rw [h] at hclock
    exact ⟨observed, rfl, of_decide_eq_true hclock⟩

section Rehearsed

variable {s : Capture} {observedUtc : String}

theorem rehearsal_closes
    (hepoch : (replay (M := List Attempt) rehearsal s.log).map State.epoch = .ok 0)
    (ht : s.Takes rehearsal observedUtc (.close 0 1)) :
    CaptureStep rehearsal s (.closes observedUtc)
      (s.journal rehearsal observedUtc (.close 0 1)) := by
  obtain ⟨d, hd, hzero⟩ := replay_value s.log State.epoch 0 hepoch
  have h := @CaptureStep.closes rehearsal s d observedUtc hd (hzero ▸ ht)
  rwa [hzero] at h

theorem rehearsal_acknowledges {p : Nat} {process : Process} (hlive : s.live p = some process)
    (hblind : process.blind = false)
    (hepoch : (replay (M := List Attempt) rehearsal s.log).map State.epoch = .ok 1)
    (ht : s.Takes rehearsal observedUtc (.ack process.worker 1)) :
    CaptureStep rehearsal s (.acknowledges p observedUtc)
      (s.journal rehearsal observedUtc (.ack process.worker 1)) := by
  obtain ⟨d, hd, hone⟩ := replay_value s.log State.epoch 1 hepoch
  have h := @CaptureStep.acknowledges rehearsal s p process d observedUtc hlive hblind hd
    (hone ▸ ht)
  rwa [hone] at h

theorem rehearsal_completes {receipt : Receipt}
    (hreceipt : (replay (M := List Attempt) rehearsal s.log).map rehearsal.receipt = .ok receipt)
    (ht : s.Takes rehearsal observedUtc (.fence receipt)) :
    CaptureStep rehearsal s (.completes observedUtc)
      (s.journal rehearsal observedUtc (.fence receipt)) := by
  obtain ⟨d, hd, rfl⟩ := replay_value s.log rehearsal.receipt receipt hreceipt
  exact .completes hd ht

theorem rehearsal_scans
    (hreceipt : (replay (M := List Attempt) rehearsal s.log).map
      (fun d => d.receipt.isSome) = .ok true) :
    CaptureStep rehearsal s .scans
      { s with scans := s.scans ++ [s.scan rehearsal.binding] } := by
  obtain ⟨d, hd, hsome⟩ := replay_value s.log (fun d => d.receipt.isSome) true hreceipt
  exact .scans hd hsome

end Rehearsed

/-- Both workers are enrolled, and it is noon. -/
theorem rehearsal_enrolled : ∃ tr, Run (CaptureStep rehearsal) (rehearsalState 0) tr
    (rehearsalState 5) ∧ Each Told (rehearsalState 0) tr := by
  have h0 : CaptureStep rehearsal (rehearsalState 0) (.starts 0 "bot:a" true) (rehearsalState 1) :=
    .starts true rfl nofun (by decide +kernel)
  have h1 : CaptureStep rehearsal (rehearsalState 1)
      (.starts 1 "backend:b" true) (rehearsalState 2) := by
    refine .starts true rfl (fun q other hq hsame => ?_) (by decide +kernel)
    by_cases hq0 : q = 0
    · subst hq0
      obtain rfl := Option.some.inj (hq : some ⟨"bot:a", none, false⟩ = some other)
      exact absurd hsame (by decide)
    · exact nomatch ((rehearsalState 0).setProcess_other _ hq0).symm.trans hq
  have t2 : (rehearsalState 2).Takes rehearsal "2025-12-31T23:10:00Z"
      (.enroll "bot:a" (some "installed bot:a")) :=
    rehearsal_takes (by decide +kernel) (by decide +kernel)
  have h2 : CaptureStep rehearsal (rehearsalState 2)
      (.enrolls 0 "2025-12-31T23:10:00Z" (some "installed bot:a")) (rehearsalState 3) :=
    @CaptureStep.enrolls rehearsal (rehearsalState 2) 0 ⟨"bot:a", none, false⟩ _ _ rfl t2
  have t3 : (rehearsalState 3).Takes rehearsal "2025-12-31T23:20:00Z"
      (.enroll "backend:b" (some "installed backend:b")) :=
    rehearsal_takes (by decide +kernel) (by decide +kernel)
  have h3 : CaptureStep rehearsal (rehearsalState 3)
      (.enrolls 1 "2025-12-31T23:20:00Z" (some "installed backend:b")) (rehearsalState 4) :=
    @CaptureStep.enrolls rehearsal (rehearsalState 3) 1 ⟨"backend:b", none, false⟩ _ _ rfl t3
  have h4 : CaptureStep rehearsal (rehearsalState 4) (.tick 1767268800000000) (rehearsalState 5) :=
    .tick (by decide)
  exact ⟨_, ((((Run.single h0).snoc _ _ h1).snoc _ _ h2).snoc _ _ h3).snoc _ _ h4,
    ⟨trivial, trivial, trivial, trivial, trivial, trivial⟩⟩

theorem rehearsal_run : ∃ tr, Run (CaptureStep rehearsal) (rehearsalState 0) tr
    (rehearsalState 18) ∧ Each Told (rehearsalState 0) tr := by
  obtain ⟨tr, henrolled, htold⟩ := rehearsal_enrolled
  have h5 : CaptureStep rehearsal (rehearsalState 5) (.begins 0 0) (rehearsalState 6) :=
    .begins rfl rfl
  have h6 : CaptureStep rehearsal (rehearsalState 6)
      (.admits 0 "2026-01-01T11:00:00Z" "t") (rehearsalState 7) := by
    obtain ⟨d, hd, hepoch⟩ := replay_value (rehearsalState 6).log State.epoch 0 (by decide +kernel)
    have t6 : (rehearsalState 6).Takes rehearsal "2026-01-01T11:00:00Z"
        (.attempt "t" "bot:a" 0 none) :=
      rehearsal_takes (by decide +kernel) (by decide +kernel)
    have h := @CaptureStep.admits rehearsal (rehearsalState 6) 0
      ⟨0, none, [], none, .active⟩ ⟨"bot:a", none, false⟩ d
      "2026-01-01T11:00:00Z" "t" rfl rfl rfl rfl hd (hepoch ▸ t6)
    rwa [hepoch] at h
  have t7 : epochMicros rehearsalTrade.ingestedUtc = .ok (rehearsalState 7).now := by decide +kernel
  have h7 : CaptureStep rehearsal (rehearsalState 7)
      (.inserts 0 rehearsalTrade) (rehearsalState 8) :=
    @CaptureStep.inserts rehearsal (rehearsalState 7) 0 ⟨0, some "t", [], none, .active⟩
      ⟨"bot:a", none, false⟩ rehearsalTrade rfl rfl rfl (Or.inl rfl) t7
  have h8 : CaptureStep rehearsal (rehearsalState 8)
      (.sends 0 (some rehearsalWitness)) (rehearsalState 9) :=
    @CaptureStep.sends rehearsal (rehearsalState 8) 0
      ⟨0, some "t", [rehearsalTrade], none, .active⟩ _ rfl rfl
  have h9 : CaptureStep rehearsal (rehearsalState 9) (.commits 0) (rehearsalState 10) :=
    @CaptureStep.commits rehearsal (rehearsalState 9) 0
      ⟨0, some "t", [rehearsalTrade], some rehearsalWitness, .sent⟩ rfl rfl
  have h10 : CaptureStep rehearsal (rehearsalState 10) (.tick 1767312060000000)
    (rehearsalState 11) := .tick (by decide)
  have t11 : (rehearsalState 11).Takes rehearsal "2026-01-01T13:00:00Z"
      (.committed "t" rehearsalWitness) :=
    rehearsal_takes (by decide +kernel) (by decide +kernel)
  have h11 : CaptureStep rehearsal (rehearsalState 11)
      (.recovers 0 "2026-01-01T13:00:00Z") (rehearsalState 12) :=
    @CaptureStep.recovers rehearsal (rehearsalState 11) 0
      ⟨0, some "t", [rehearsalTrade], some rehearsalWitness, .committed⟩ "t" _ _
      rfl rfl rfl rfl t11
  have h12 : CaptureStep rehearsal (rehearsalState 12)
      (.closes "2026-01-02T00:00:00.5Z") (rehearsalState 13) :=
    rehearsal_closes (by decide +kernel) (rehearsal_takes (by decide +kernel) (by decide +kernel))
  have h13 : CaptureStep rehearsal (rehearsalState 13)
      (.acknowledges 0 "2026-01-02T00:00:01Z") (rehearsalState 14) :=
    @rehearsal_acknowledges _ _ 0 ⟨"bot:a", none, false⟩ rfl rfl (by decide +kernel)
      (rehearsal_takes (by decide +kernel) (by decide +kernel))
  have h14 : CaptureStep rehearsal (rehearsalState 14)
      (.acknowledges 1 "2026-01-02T00:00:02Z") (rehearsalState 15) :=
    @rehearsal_acknowledges _ _ 1 ⟨"backend:b", none, false⟩ rfl rfl (by decide +kernel)
      (rehearsal_takes (by decide +kernel) (by decide +kernel))
  have h15 : CaptureStep rehearsal (rehearsalState 15)
      (.completes "2026-01-02T00:00:03Z") (rehearsalState 16) :=
    rehearsal_completes (by decide +kernel)
      (rehearsal_takes (by decide +kernel) (by decide +kernel))
  have h16 : CaptureStep rehearsal (rehearsalState 16) .scans (rehearsalState 17) :=
    rehearsal_scans (by decide +kernel)
  have h17 : CaptureStep rehearsal (rehearsalState 17)
      (.freezes "2026-01-02T00:00:05Z" rehearsalPopulation) (rehearsalState 18) :=
    .freezes (by decide +kernel) (rehearsal_takes (by decide +kernel) (by decide +kernel))
  exact ⟨_, ((((((((((((henrolled.snoc _ _ h5).snoc _ _ h6).snoc _ _ h7).snoc _ _ h8).snoc
    _ _ h9).snoc _ _ h10).snoc _ _ h11).snoc _ _ h12).snoc _ _ h13).snoc _ _ h14).snoc
    _ _ h15).snoc _ _ h16).snoc _ _ h17, by simpa only [each_snoc, Told, and_true] using htold⟩

theorem rehearsal_start : Start rehearsal (rehearsalState 0) := by
  obtain ⟨d, hd⟩ : ∃ d, replay (M := List Attempt) rehearsal (rehearsalState 0).log = .ok d :=
    exists_ok (by decide +kernel)
  exact ⟨⟨_, rfl, d, hd⟩, fun _ => rfl, fun _ => rfl, rfl⟩

def untoldReceipt : Receipt :=
  { rehearsalReceipt with admitted := 0, committed := 0, highWaterMark := some 4 }

def untoldPopulation : Population where
  sourceFacts := []
  sourceFactsSha256 := "facts 0"
  frozenIds := []
  frozenIdsSha256 := "ids []"
  count := 0
  fenceReceiptSha256 := "event 7"
  queryObservedUtc := "2026-01-02T00:00:04Z"
  queryIsolation := "REPEATABLE_READ_READ_ONLY"
  querySourceFactsSha256 := "facts 0"
  sourceSQLCheckpoint := ⟨"repeatable read", "on", "1:1:", "facts 0", []⟩

/-- From noon: the observation of the bot fails, it inserts the trade all the same and dies
with the COMMIT on its way. Its successor observes, and acknowledges. -/
def untoldMoves : List (Capture → Capture) := [
  fun s => s.setProcess 0 (some ⟨"bot:a", some "disk full", false⟩),
  fun s => s.setTx 0 ⟨0, none, [], none, .active⟩,
  fun s => s.setTx 0 ⟨0, none, [rehearsalTrade], none, .active⟩,
  fun s => s.setTx 0 ⟨0, none, [rehearsalTrade], none, .sent⟩,
  fun s => { s.setProcess 0 none with txs := fun x => (s.txs x).map (abort 0) },
  fun s => s.setProcess 2 (some ⟨"bot:a", none, false⟩),
  fun s => { s with now := 1767312060000000 },
  fun s => s.journal rehearsal "2026-01-02T00:00:00.5Z" (.close 0 1),
  fun s => s.journal rehearsal "2026-01-02T00:00:01Z" (.ack "bot:a" 1),
  fun s => s.journal rehearsal "2026-01-02T00:00:02Z" (.ack "backend:b" 1),
  fun s => s.journal rehearsal "2026-01-02T00:00:03Z" (.fence untoldReceipt),
  fun s => { s with scans := s.scans ++ [s.scan rehearsal.binding] },
  fun s => s.journal rehearsal "2026-01-02T00:00:05Z" (.freeze untoldPopulation),
  fun s => { s.setTx 0 ⟨0, none, [rehearsalTrade], none, .committed⟩ with
    trades := s.trades ++ [rehearsalTrade] }]

def untoldState (n : Nat) : Capture :=
  (untoldMoves.take n).foldl (fun s move => move s) (rehearsalState 5)

/-- `Told` is needed: the trade of a blind process that dies with its COMMIT in doubt was ingested
in the window, and comes in after FREEZE. -/
theorem frozen_misses_untold :
    (∃ tr, Run (CaptureStep rehearsal) (rehearsalState 0) tr (untoldState 14)) ∧
    (∃ e ∈ (untoldState 14).log, e.payload = .freeze untoldPopulation) ∧
    (untoldState 14).trades.filter (inFrozen rehearsal.binding) = [rehearsalTrade] := by
  obtain ⟨tr, henrolled, -⟩ := rehearsal_enrolled
  have h0 : CaptureStep rehearsal (untoldState 0) (.fails 0 "disk full") (untoldState 1) :=
    @CaptureStep.fails rehearsal (untoldState 0) 0 ⟨"bot:a", none, false⟩ "disk full" rfl
  have h1 : CaptureStep rehearsal (untoldState 1) (.begins 0 0) (untoldState 2) :=
    .begins rfl rfl
  have t2 : epochMicros rehearsalTrade.ingestedUtc = .ok (untoldState 2).now := by decide +kernel
  have h2 : CaptureStep rehearsal (untoldState 2) (.inserts 0 rehearsalTrade) (untoldState 3) :=
    @CaptureStep.inserts rehearsal (untoldState 2) 0 ⟨0, none, [], none, .active⟩
      ⟨"bot:a", some "disk full", false⟩ rehearsalTrade rfl rfl rfl (Or.inr (Or.inl rfl)) t2
  have h3 : CaptureStep rehearsal (untoldState 3) (.sends 0 none) (untoldState 4) :=
    @CaptureStep.sends rehearsal (untoldState 3) 0
      ⟨0, none, [rehearsalTrade], none, .active⟩ none rfl rfl
  have h4 : CaptureStep rehearsal (untoldState 4) (.crashes 0) (untoldState 5) := .crashes 0
  have h5 : CaptureStep rehearsal (untoldState 5) (.starts 2 "bot:a" true) (untoldState 6) := by
    refine .starts true rfl (fun q other hq => ?_) (by decide +kernel)
    rcases q with _ | _ | q
    · exact nomatch hq
    · obtain rfl := Option.some.inj (hq : some ⟨"backend:b", none, false⟩ = some other)
      decide
    · exact nomatch hq
  have h6 : CaptureStep rehearsal (untoldState 6) (.tick 1767312060000000) (untoldState 7) :=
    .tick (by decide)
  have h7 : CaptureStep rehearsal (untoldState 7)
      (.closes "2026-01-02T00:00:00.5Z") (untoldState 8) :=
    rehearsal_closes (by decide +kernel) (rehearsal_takes (by decide +kernel) (by decide +kernel))
  have h8 : CaptureStep rehearsal (untoldState 8)
      (.acknowledges 2 "2026-01-02T00:00:01Z") (untoldState 9) :=
    @rehearsal_acknowledges _ _ 2 ⟨"bot:a", none, false⟩ rfl rfl (by decide +kernel)
      (rehearsal_takes (by decide +kernel) (by decide +kernel))
  have h9 : CaptureStep rehearsal (untoldState 9)
      (.acknowledges 1 "2026-01-02T00:00:02Z") (untoldState 10) :=
    @rehearsal_acknowledges _ _ 1 ⟨"backend:b", none, false⟩ rfl rfl (by decide +kernel)
      (rehearsal_takes (by decide +kernel) (by decide +kernel))
  have h10 : CaptureStep rehearsal (untoldState 10)
      (.completes "2026-01-02T00:00:03Z") (untoldState 11) :=
    rehearsal_completes (by decide +kernel)
      (rehearsal_takes (by decide +kernel) (by decide +kernel))
  have h11 : CaptureStep rehearsal (untoldState 11) .scans (untoldState 12) :=
    rehearsal_scans (by decide +kernel)
  have h12 : CaptureStep rehearsal (untoldState 12)
      (.freezes "2026-01-02T00:00:05Z" untoldPopulation) (untoldState 13) :=
    .freezes (by decide +kernel) (rehearsal_takes (by decide +kernel) (by decide +kernel))
  have h13 : CaptureStep rehearsal (untoldState 13) (.commits 0) (untoldState 14) :=
    @CaptureStep.commits rehearsal (untoldState 13) 0
      ⟨0, none, [rehearsalTrade], none, .sent⟩ rfl rfl
  exact ⟨⟨_, (((((((((((((henrolled.snoc _ _ h0).snoc _ _ h1).snoc _ _ h2).snoc _ _ h3).snoc
      _ _ h4).snoc _ _ h5).snoc _ _ h6).snoc _ _ h7).snoc _ _ h8).snoc _ _ h9).snoc
      _ _ h10).snoc _ _ h11).snoc _ _ h12).snoc _ _ h13⟩,
    ⟨_, List.mem_append_right _ (List.mem_singleton_self _), rfl⟩, by decide +kernel⟩

end Polycopy.Comparison
