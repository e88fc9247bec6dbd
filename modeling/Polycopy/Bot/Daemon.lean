import Mathlib.Data.List.Induction
import Mathlib.Data.List.Sort
import Polycopy.Bot.FailureThrottle
import Polycopy.Lib.Run
import Polycopy.Models

/-!
# The daemon and who watches it

A cycle of the daemon writes a heartbeat when it begins and another when it has ended:

    bot_alive      at the top of the loop
    bot_success    after a cycle without a failed wallet, a quarantined row, an error
    bot_failure    after any other, and after an exception

The watchdog, another process, and the health page read the newest of these rows.

* `watched_truly`: over every run, with failed writes, exceptions, crashes and restarts in
  any order, "ok" means that a clean cycle has ended lately and that no failure was
  recorded after it; and while every write succeeds, a last cycle that was clean is "ok"
  as long as it is recent. Meanwhile two scorings are never closer than the cadence.
-/

namespace Polycopy.Daemon

open Runs

/-! ## Heartbeats -/

inductive HeartbeatService
  | alive
  | success
  | failure
  deriving DecidableEq, Repr

/-- A row of `service_heartbeats`; the table is in the order of its ids. -/
structure ServiceHeartbeat where
  service : HeartbeatService
  seenAt : Time
  deriving DecidableEq, Repr

/-- `latest` of one service. -/
def latest (rows : List ServiceHeartbeat) (service : HeartbeatService) : Option Time :=
  rows.foldl (fun m row => if row.service = service then
    some (max (m.getD row.seenAt) row.seenAt) else m) none

inductive WatchdogStatus
  | processMissingOrStale
  | successStale
  | cycleFailing
  | ok
  deriving DecidableEq, Repr

def successStaleSeconds : ℚ := 600

/-- `heartbeat_status`. -/
def heartbeatStatus (rows : List ServiceHeartbeat) (now : Time) : WatchdogStatus :=
  if (latest rows .alive).all (fun alive => now - alive > successStaleSeconds) then
    .processMissingOrStale
  else
    match latest rows .success with
    | none => .successStale
    | some success =>
      if now - success > successStaleSeconds then .successStale
      else if (latest rows .failure).any (fun failure => failure > success) then .cycleFailing
      else .ok

/-- `check_once`: the newest 200 rows. -/
def checkOnce (rows : List ServiceHeartbeat) (now : Time) : WatchdogStatus :=
  heartbeatStatus (rows.reverse.take 200) now

inductive CycleCheck
  | failing
  | missing
  | stale
  | ok
  deriving DecidableEq, Repr

/-- `ORDER BY seen_at DESC, id DESC LIMIT 50`. -/
def newestSeen (rows : List ServiceHeartbeat) : List ServiceHeartbeat :=
  (rows.reverse.insertionSort fun a b => b.seenAt ≤ a.seenAt).take 50

/-- The first row of a service. -/
def firstSeen (rows : List ServiceHeartbeat) (service : HeartbeatService) : Option Time :=
  (rows.find? fun row => row.service = service).map ServiceHeartbeat.seenAt

/-- `checks["bot_cycle"]` of the health page. -/
def botCycle (staleAfter : ℚ) (rows : List ServiceHeartbeat) (now : Time) : CycleCheck :=
  match firstSeen (newestSeen rows) .success, firstSeen (newestSeen rows) .failure with
  | none, some _ => .failing
  | none, none => .missing
  | some success, failure =>
    if failure.any fun failure => failure > success then .failing
    else if now - success > staleAfter then .stale
    else .ok

/-! ## A cycle -/

structure CycleError where
  errorType : String
  error : String
  deriving DecidableEq, Repr

/-- What `run_bot_cycle` counts. -/
structure CycleStats where
  failedWallets : Nat
  quarantinedRows : Nat
  settlementErrors : Nat
  deriving DecidableEq, Repr

def CycleStats.isDegraded (s : CycleStats) : Bool :=
  s.failedWallets > 0 ∨ s.quarantinedRows > 0 ∨ s.settlementErrors > 0

inductive CycleOutcome
  | clean
  | degraded (failedWallets quarantinedRows : Nat)
  | raised (e : CycleError)
  deriving DecidableEq, Repr

def CycleStats.outcome (s : CycleStats) : CycleOutcome :=
  if s.isDegraded then .degraded s.failedWallets s.quarantinedRows else .clean

/-- `score_candidates_if_due`, with how `score_all_wallets` ends. -/
def scoreCandidatesIfDue (interval : ℚ) (nextAt clock : ℚ) (scored : Except CycleError Unit) :
    Except CycleError (ℚ × Option Unit) :=
  if clock < nextAt then .ok (nextAt, none)
  else scored.map fun verdicts => (clock + max 60 interval, some verdicts)

/-- The body of the loop: the time of the next scoring, the scoring made, if any,
and how the cycle ends. -/
def cycleBody (interval nextScoringAt scoreClock : ℚ) (cycle : Except CycleError CycleStats)
    (scored : Except CycleError Unit) :
    ℚ × Option ℚ × CycleOutcome :=
  match cycle with
  | .error e => (nextScoringAt, none, .raised e)
  | .ok stats =>
    if nextScoringAt ≤ scoreClock then
      -- the cadence is reserved before the scoring, which may raise
      match scoreCandidatesIfDue interval nextScoringAt scoreClock scored with
      | .error e => (scoreClock + max 60 interval, some scoreClock, .raised e)
      | .ok _ => (scoreClock + max 60 interval, some scoreClock, stats.outcome)
    else (nextScoringAt, none, stats.outcome)

/-! ## The daemon -/

/-- The signatures of `_cycle_failure_throttle`. -/
inductive FailureSignature
  | heartbeat (service : HeartbeatService) (e : CycleError)
  | ingestionDegraded (failedWallets quarantinedRows : Nat)
  | cycleException (e : CycleError)
  deriving DecidableEq, Repr

def FailureSignature.head : FailureSignature → Option String
  | .heartbeat .. => some "heartbeat"
  | .ingestionDegraded .. => some "ingestion_degraded"
  | .cycleException .. => some "cycle_exception"

def cycleFailureThrottle : FailureLogThrottle := ⟨300, 20, fiveMinutes_pos, twenty_pos⟩

inductive DaemonPc
  | top
  | working
  | reporting (outcome : CycleOutcome)
  deriving DecidableEq, Repr

/-- What a process remembers, and the scorings it has made. -/
structure DaemonProcess where
  pc : DaemonPc
  nextScoringAt : ℚ
  throttle : List (Throttled FailureSignature)
  scorings : List ℚ

def DaemonProcess.fresh : DaemonProcess := ⟨.top, 0, [], []⟩

/-- A cycle that has ended, and whether its heartbeat was written. -/
structure Report where
  endedAt : Time
  outcome : CycleOutcome
  written : Bool
  deriving DecidableEq, Repr

def CycleOutcome.service : CycleOutcome → HeartbeatService
  | .clean => .success
  | .degraded .. | .raised _ => .failure

def Report.row (r : Report) : ServiceHeartbeat := ⟨r.outcome.service, r.endedAt⟩

structure Watch where
  clock : Time
  rows : List ServiceHeartbeat
  process : Option DaemonProcess
  reports : List Report

/-- `_write_heartbeat_safely`: the table and the throttle after a write that succeeds or raises. -/
def writeHeartbeatSafely (rows : List ServiceHeartbeat)
    (throttle : List (Throttled FailureSignature)) (row : ServiceHeartbeat)
    (raised : Option CycleError) (monotonic : ℚ) :
    List ServiceHeartbeat × List (Throttled FailureSignature) :=
  match raised with
  | none => (rows ++ [row], throttle)
  | some e => (rows, (cycleFailureThrottle.record throttle (.heartbeat row.service e) monotonic).1)

/-- The throttle after a report. -/
def CycleOutcome.throttled (o : CycleOutcome) (throttle : List (Throttled FailureSignature))
    (monotonic : ℚ) : List (Throttled FailureSignature) :=
  match o with
  | .clean => clearHead FailureSignature.head "cycle_exception" throttle
  | .degraded failedWallets quarantinedRows =>
    (cycleFailureThrottle.record throttle
      (.ingestionDegraded failedWallets quarantinedRows) monotonic).1
  | .raised e => (cycleFailureThrottle.record throttle (.cycleException e) monotonic).1

/-- The top of the loop. -/
def Watch.begun (w : Watch) (x : DaemonProcess)
    (raised : Option CycleError) (monotonic : ℚ) : Watch :=
  let r := writeHeartbeatSafely w.rows x.throttle ⟨.alive, w.clock⟩ raised monotonic
  { w with rows := r.1, process := some { x with pc := .working, throttle := r.2 } }

def Watch.worked (w : Watch) (x : DaemonProcess) (interval scoreClock : ℚ)
    (cycle : Except CycleError CycleStats) (scored : Except CycleError Unit) : Watch :=
  let r := cycleBody interval x.nextScoringAt scoreClock cycle scored
  { w with process := some { x with
    pc := .reporting r.2.2, nextScoringAt := r.1, scorings := x.scorings ++ r.2.1.toList } }

/-- The end of a cycle. -/
def Watch.reported (w : Watch) (x : DaemonProcess) (o : CycleOutcome) (raised : Option CycleError)
    (monotonic monotonic' : ℚ) : Watch :=
  let r := writeHeartbeatSafely w.rows x.throttle ⟨o.service, w.clock⟩ raised monotonic
  { w with
    rows := r.1
    process := some { x with pc := .top, throttle := o.throttled r.2 monotonic' }
    reports := w.reports ++ [⟨w.clock, o, raised.isNone⟩] }

inductive WatchEvent
  | tick
  | starts
  | begins (raised : Option CycleError)
  | works
  | reports (raised : Option CycleError)
  | dies

inductive WatchStep (interval : ℚ) (w : Watch) : WatchEvent → Watch → Prop
  | tick (clock : Time) : w.clock ≤ clock → WatchStep interval w .tick { w with clock := clock }
  | starts : w.process = none → WatchStep interval w .starts { w with process := some .fresh }
  | begins {x : DaemonProcess} (raised : Option CycleError) (monotonic : ℚ) :
      w.process = some x → x.pc = .top →
      WatchStep interval w (.begins raised) (w.begun x raised monotonic)
  | works {x : DaemonProcess} (scoreClock : ℚ) (cycle : Except CycleError CycleStats)
      (scored : Except CycleError Unit) : w.process = some x →
      x.pc = .working → WatchStep interval w .works (w.worked x interval scoreClock cycle scored)
  | reports {x : DaemonProcess} {o : CycleOutcome} (raised : Option CycleError)
      (monotonic monotonic' : ℚ) : w.process = some x →
      x.pc = .reporting o →
      WatchStep interval w (.reports raised) (w.reported x o raised monotonic monotonic')
  | dies : WatchStep interval w .dies { w with process := none }

def Watch.start (clock : Time) : Watch := ⟨clock, [], none, []⟩

/-! ## Reading the table -/

/-- The newest of the rows of a service. -/
def IsLatest (rows : List ServiceHeartbeat) (service : HeartbeatService) : Option Time → Prop
  | none => ∀ row ∈ rows, row.service ≠ service
  | some stamp =>
    (∃ row ∈ rows, row.service = service ∧ row.seenAt = stamp) ∧
      ∀ row ∈ rows, row.service = service → row.seenAt ≤ stamp

theorem latest_snoc (rows : List ServiceHeartbeat) (row : ServiceHeartbeat)
    (service : HeartbeatService) :
    latest (rows ++ [row]) service =
      if row.service = service then some (max ((latest rows service).getD row.seenAt) row.seenAt)
      else latest rows service := by
  unfold latest
  rw [List.foldl_append]
  rfl

theorem latest_isLatest (rows : List ServiceHeartbeat) (service : HeartbeatService) :
    IsLatest rows service (latest rows service) := by
  induction rows using List.reverseRecOn with
  | nil => exact nofun
  | append_singleton rows row ih =>
    rw [latest_snoc]
    by_cases hrow : row.service = service
    · rw [if_pos hrow]
      cases hl : latest rows service with
      | none =>
        rw [hl] at ih
        refine ⟨⟨row, by simp, hrow, by simp⟩, fun row' hrow' hs => ?_⟩
        rcases List.mem_append.mp hrow' with hrow' | hrow'
        · exact absurd hs (ih row' hrow')
        · obtain rfl := List.mem_singleton.mp hrow'
          exact le_max_right _ _
      | some stamp =>
        rw [hl] at ih
        obtain ⟨⟨old, hold, hservice, rfl⟩, hmax⟩ := ih
        constructor
        · rcases le_total old.seenAt row.seenAt with hle | hle
          · exact ⟨row, by simp, hrow, (max_eq_right hle).symm⟩
          · exact ⟨old, List.mem_append_left _ hold, hservice, (max_eq_left hle).symm⟩
        · intro row' hrow' hs
          rcases List.mem_append.mp hrow' with hrow' | hrow'
          · exact (hmax row' hrow' hs).trans (le_max_left _ _)
          · obtain rfl := List.mem_singleton.mp hrow'
            exact le_max_right _ _
    · rw [if_neg hrow]
      have hsplit : ∀ row' ∈ rows ++ [row], row'.service = service → row' ∈ rows := by
        intro row' hrow' hs
        rcases List.mem_append.mp hrow' with hrow' | hrow'
        · exact hrow'
        · obtain rfl := List.mem_singleton.mp hrow'
          exact absurd hs hrow
      cases hl : latest rows service with
      | none =>
        rw [hl] at ih
        exact fun row' hrow' hs => ih row' (hsplit row' hrow' hs) hs
      | some stamp =>
        rw [hl] at ih
        obtain ⟨⟨old, hold, hfound⟩, hmax⟩ := ih
        exact ⟨⟨old, List.mem_append_left _ hold, hfound⟩,
          fun row' hrow' hs => hmax row' (hsplit row' hrow' hs) hs⟩

/-- The newest rows come first. -/
theorem firstSeen_isLatest {rows : List ServiceHeartbeat}
    (h : rows.Pairwise fun a b => b.seenAt ≤ a.seenAt) (service : HeartbeatService) :
    IsLatest rows service (firstSeen rows service) := by
  unfold firstSeen
  cases hf : rows.find? fun row => row.service = service with
  | none => simpa [IsLatest] using hf
  | some row =>
    obtain ⟨hservice, before, after, rfl, hbefore⟩ := List.find?_eq_some_iff_append.mp hf
    have hafter := (List.pairwise_cons.mp (List.pairwise_append.mp h).2.1).1
    refine ⟨⟨row, by simp, of_decide_eq_true hservice, rfl⟩, fun row' hrow' hs => ?_⟩
    rcases List.mem_append.mp hrow' with hrow' | hrow'
    · simpa [hs] using hbefore row' hrow'
    · rcases List.mem_cons.mp hrow' with rfl | hrow'
      · exact le_refl _
      · exact hafter row' hrow'

theorem IsLatest.congr {rows rows' : List ServiceHeartbeat} (h : ∀ row, row ∈ rows ↔ row ∈ rows')
    {service : HeartbeatService} {o : Option Time}
    (ho : IsLatest rows service o) : IsLatest rows' service o := by
  cases o with
  | none => exact fun row hrow => ho row ((h row).mpr hrow)
  | some stamp =>
    obtain ⟨⟨row, hrow, hfound⟩, hmax⟩ := ho
    exact ⟨⟨row, (h row).mp hrow, hfound⟩, fun row' hrow' => hmax row' ((h row').mpr hrow')⟩

/-- The last so many rows. -/
def newest (n : Nat) (rows : List ServiceHeartbeat) : List ServiceHeartbeat :=
  rows.drop (rows.length - n)

theorem newest_suffix (n : Nat) (rows : List ServiceHeartbeat) :
    newest n rows <:+ rows := List.drop_suffix _ _

theorem take_reverse (n : Nat) (rows : List ServiceHeartbeat) :
    rows.reverse.take n = (newest n rows).reverse := List.take_reverse

theorem checkOnce_latest (rows : List ServiceHeartbeat) (service : HeartbeatService) :
    IsLatest (newest 200 rows) service (latest (rows.reverse.take 200) service) := by
  refine (latest_isLatest _ service).congr fun row => ?_
  rw [take_reverse, List.mem_reverse]

theorem newestSeen_latest {rows : List ServiceHeartbeat}
    (h : rows.Pairwise fun a b => a.seenAt ≤ b.seenAt) (service : HeartbeatService) :
    IsLatest (newest 50 rows) service (firstSeen (newestSeen rows) service) := by
  have hreverse : rows.reverse.Pairwise fun a b => b.seenAt ≤ a.seenAt :=
    List.pairwise_reverse.mpr h
  have hsorted : newestSeen rows = (newest 50 rows).reverse := by
    unfold newestSeen
    rw [List.Pairwise.insertionSort_eq hreverse, take_reverse]
  rw [hsorted]
  refine IsLatest.congr (fun row => List.mem_reverse) (firstSeen_isLatest ?_ service)
  exact List.pairwise_reverse.mpr (h.sublist (newest_suffix 50 rows).sublist)

/-! ## What the table says -/

/-- The scorings of a process are a cadence apart, and so is the next. -/
def DaemonProcess.Paced (interval : ℚ) (x : DaemonProcess) : Prop :=
  x.scorings.Pairwise (fun a b => a + max 60 interval ≤ b) ∧
    ∀ a ∈ x.scorings, a + max 60 interval ≤ x.nextScoringAt

structure Watch.Ok (interval : ℚ) (w : Watch) : Prop where
  ordered : w.rows.Pairwise fun a b => a.seenAt ≤ b.seenAt
  past : ∀ row ∈ w.rows, row.seenAt ≤ w.clock
  reported : w.rows.filter (fun row => row.service ≠ .alive) =
    (w.reports.filter Report.written).map Report.row
  paced : ∀ x, w.process = some x → x.Paced interval

/-- A row of now comes after the others. -/
theorem ordered_snoc {rows : List ServiceHeartbeat} {clock : Time}
    (ho : rows.Pairwise fun a b => a.seenAt ≤ b.seenAt) (hp : ∀ row ∈ rows, row.seenAt ≤ clock)
    (service : HeartbeatService) :
    (rows ++ [⟨service, clock⟩] : List ServiceHeartbeat).Pairwise (fun a b => a.seenAt ≤ b.seenAt) ∧
      ∀ row ∈ rows ++ [⟨service, clock⟩], row.seenAt ≤ clock := by
  refine ⟨List.pairwise_append.mpr ⟨ho, List.pairwise_singleton _ _, fun row hrow row' hrow' => ?_⟩,
    fun row hrow => ?_⟩
  · obtain rfl := List.mem_singleton.mp hrow'
    exact hp row hrow
  · rcases List.mem_append.mp hrow with hrow | hrow
    · exact hp row hrow
    · obtain rfl := List.mem_singleton.mp hrow
      exact le_refl _

/-- A scoring is made when it is due, and reserves the next one. -/
theorem cycleBody_scoring (interval next clock : ℚ) (cycle : Except CycleError CycleStats)
    (scored : Except CycleError Unit) :
    ((cycleBody interval next clock cycle scored).1 = next ∧
      (cycleBody interval next clock cycle scored).2.1 = none) ∨
      (next ≤ clock ∧ (cycleBody interval next clock cycle scored).1 = clock + max 60 interval ∧
        (cycleBody interval next clock cycle scored).2.1 = some clock) := by
  unfold cycleBody
  cases cycle with
  | error e => exact Or.inl ⟨rfl, rfl⟩
  | ok stats =>
    by_cases hdue : next ≤ clock
    · right
      simp only [if_pos hdue]
      split <;> exact ⟨hdue, rfl, rfl⟩
    · left
      simp only [if_neg hdue]
      exact ⟨trivial, trivial⟩

theorem Watch.Ok.step {interval : ℚ} {w w' : Watch} {e : WatchEvent} (h : w.Ok interval)
    (hstep : WatchStep interval w e w') : w'.Ok interval := by
  obtain ⟨hordered, hpast, hreported, hpaced⟩ := h
  cases hstep with
  | tick clock hle =>
    exact ⟨hordered, fun row hrow => (hpast row hrow).trans hle, hreported, hpaced⟩
  | starts =>
    refine ⟨hordered, hpast, hreported, ?_⟩
    rintro x ⟨⟩
    exact ⟨List.Pairwise.nil, nofun⟩
  | @begins x raised monotonic hx htop =>
    have hpaced' : ∀ y, (w.begun x raised monotonic).process = some y → y.Paced interval := by
      rintro y ⟨⟩
      exact hpaced x hx
    cases raised with
    | none =>
      obtain ⟨ho, hp⟩ := ordered_snoc hordered hpast .alive
      refine ⟨ho, hp, ?_, hpaced'⟩
      show (w.rows ++ [ServiceHeartbeat.mk .alive w.clock]).filter _ = _
      rw [List.filter_append, hreported]
      exact List.append_nil _
    | some e => exact ⟨hordered, hpast, hreported, hpaced'⟩
  | @works x scoreClock cycle scored hx hworking =>
    refine ⟨hordered, hpast, hreported, ?_⟩
    rintro y ⟨⟩
    obtain ⟨hspaced, hnext⟩ := hpaced x hx
    rcases cycleBody_scoring interval x.nextScoringAt scoreClock cycle scored with
      ⟨hsame, hnone⟩ | ⟨hdue, hreserved, hscored⟩
    · simp only [hnone, hsame, Option.toList_none, List.append_nil]
      exact ⟨hspaced, hnext⟩
    · simp only [hscored, hreserved, Option.toList_some]
      refine ⟨List.pairwise_append.mpr ⟨hspaced, List.pairwise_singleton _ _,
        fun a ha b hb => ?_⟩, fun a ha => ?_⟩
      · obtain rfl := List.mem_singleton.mp hb
        exact (hnext a ha).trans hdue
      · rcases List.mem_append.mp ha with ha | ha
        · have hpos : (60 : ℚ) ≤ max 60 interval := le_max_left _ _
          have hle := (hnext a ha).trans hdue
          linarith
        · obtain rfl := List.mem_singleton.mp ha
          exact le_refl _
  | @reports x o raised monotonic monotonic' hx hreporting =>
    have hpaced' : ∀ y, (w.reported x o raised monotonic monotonic').process = some y →
        y.Paced interval := by
      rintro y ⟨⟩
      exact hpaced x hx
    cases raised with
    | none =>
      obtain ⟨ho, hp⟩ := ordered_snoc hordered hpast o.service
      refine ⟨ho, hp, ?_, hpaced'⟩
      have hservice : o.service ≠ .alive := by cases o <;> exact nofun
      show (w.rows ++ [ServiceHeartbeat.mk o.service w.clock]).filter _ =
        ((w.reports ++ [Report.mk w.clock o true]).filter Report.written).map Report.row
      rw [List.filter_append, List.filter_append, List.map_append, hreported,
        List.filter_singleton, decide_eq_true hservice]
      rfl
    | some e =>
      refine ⟨hordered, hpast, ?_, hpaced'⟩
      show w.rows.filter _ =
        ((w.reports ++ [Report.mk w.clock o false]).filter Report.written).map Report.row
      rw [List.filter_append, List.map_append, hreported]
      exact (List.append_nil _).symm
  | dies => exact ⟨hordered, hpast, hreported, fun x hx => absurd hx (Option.some_ne_none x).symm⟩

/-- A clean cycle has ended within the age, and no failure was recorded after it. -/
def Recent (reports : List Report) (age : ℚ) (now : Time) : Prop :=
  ∃ r ∈ reports, r.written = true ∧ r.outcome = .clean ∧ now - r.endedAt ≤ age ∧
    ∀ r' ∈ reports, r'.written = true → r'.outcome ≠ .clean → r'.endedAt ≤ r.endedAt

theorem mem_reported {interval : ℚ} {w : Watch} (h : w.Ok interval) (row : ServiceHeartbeat) :
    (row ∈ w.rows ∧ row.service ≠ .alive) ↔ ∃ r ∈ w.reports, r.written = true ∧ r.row = row := by
  have hmem := congrArg (row ∈ ·) h.reported
  simpa [and_assoc] using hmem

/-- A service of which the newest rows have one: the newest of them is the newest of all. -/
theorem latest_all {rows : List ServiceHeartbeat}
    (ho : rows.Pairwise fun a b => a.seenAt ≤ b.seenAt) {n : Nat} {service : HeartbeatService}
    {o : Option Time} (hl : IsLatest (newest n rows) service o) {row₀ : ServiceHeartbeat}
    (hmem : row₀ ∈ newest n rows)
    (hservice : row₀.service = service) : ∃ stamp, o = some stamp ∧
    ∀ row ∈ rows, row.service = service → row.seenAt ≤ stamp := by
  cases o with
  | none => exact absurd hservice (hl row₀ hmem)
  | some stamp =>
    refine ⟨stamp, rfl, fun row hrow hs => ?_⟩
    obtain ⟨older, holder⟩ := newest_suffix n rows
    rw [← holder] at hrow ho
    rcases List.mem_append.mp hrow with hrow | hrow
    · exact ((List.pairwise_append.mp ho).2.2 row hrow row₀ hmem).trans (hl.2 row₀ hmem hservice)
    · exact hl.2 row hrow hs

theorem CycleOutcome.service_success {o : CycleOutcome} : o.service = .success ↔ o = .clean := by
  cases o <;> simp [CycleOutcome.service]

theorem CycleOutcome.service_failure {o : CycleOutcome} : o.service = .failure ↔ o ≠ .clean := by
  cases o <;> simp [CycleOutcome.service]

/-- A success that is newest, with no newer failure, is of a clean cycle. -/
theorem Watch.Ok.recent {interval : ℚ} {w : Watch} (h : w.Ok interval) {n : Nat}
    {success : Time} {failure : Option Time}
    (hs : IsLatest (newest n w.rows) .success (some success))
    (hf : IsLatest (newest n w.rows) .failure failure)
    (hle : ∀ stamp ∈ failure, stamp ≤ success) {age : ℚ} {now : Time} (hage : now - success ≤ age) :
    Recent w.reports age now := by
  obtain ⟨⟨row, hrow, hservice, rfl⟩, -⟩ := hs
  have hsuffix := newest_suffix n w.rows
  obtain ⟨r, hr, hwritten, rfl⟩ := (mem_reported h row).mp ⟨hsuffix.subset hrow, hservice ▸ nofun⟩
  refine ⟨r, hr, hwritten, CycleOutcome.service_success.mp hservice, hage,
    fun r' hr' hwritten' hunclean => ?_⟩
  have hrow' := ((mem_reported h r'.row).mpr ⟨r', hr', hwritten', rfl⟩).1
  obtain ⟨older, holder⟩ := hsuffix
  have ho := h.ordered
  rw [← holder] at hrow' ho
  rcases List.mem_append.mp hrow' with hrow' | hrow'
  · exact (List.pairwise_append.mp ho).2.2 _ hrow' _ hrow
  · cases failure with
    | none => exact absurd (CycleOutcome.service_failure.mpr hunclean) (hf _ hrow')
    | some stamp =>
      exact (hf.2 _ hrow' (CycleOutcome.service_failure.mpr hunclean)).trans (hle stamp rfl)

/-! ## While nothing fails to be written -/

/-- No heartbeat fails and no process dies. -/
def WatchEvent.Smooth : WatchEvent → Prop
  | .begins raised | .reports raised => raised = none
  | .dies => False
  | .tick | .starts | .works => True

/-- The rows of whole cycles. -/
def Finished (rows : List ServiceHeartbeat) (reports : List Report) : Prop :=
  (rows = [] ∧ reports = []) ∨ ∃ older begun r, rows = older ++ [⟨.alive, begun⟩, r.row] ∧
    reports.getLast? = some r

/-- … and of the one under way. -/
structure Watch.Whole (w : Watch) : Prop where
  idle : (∀ x, w.process = some x → x.pc = .top) → Finished w.rows w.reports
  busy : ∀ x, w.process = some x → x.pc ≠ .top →
    ∃ older begun, w.rows = older ++ [⟨.alive, begun⟩] ∧ Finished older w.reports

theorem Watch.Whole.step {interval : ℚ} {w w' : Watch} {e : WatchEvent} (h : w.Whole)
    (hstep : WatchStep interval w e w') (he : e.Smooth) :
    w'.Whole := by
  cases hstep with
  | tick clock => exact ⟨h.idle, h.busy⟩
  | starts hnone =>
    refine ⟨fun _ => h.idle fun x hx => ?_, ?_⟩
    · rw [hnone] at hx
      cases hx
    · rintro x ⟨⟩ hbusy
      exact absurd rfl hbusy
  | @begins x raised monotonic hx htop =>
    obtain rfl : raised = none := he
    refine ⟨fun hidle => (nomatch hidle _ rfl),
      fun _ _ _ => ⟨w.rows, w.clock, rfl, h.idle fun y hy => ?_⟩⟩
    obtain rfl := Option.some.inj (hx.symm.trans hy)
    exact htop
  | @works x scoreClock cycle scored hx hworking =>
    exact ⟨fun hidle => (nomatch hidle _ rfl), fun _ _ _ => h.busy x hx (hworking ▸ nofun)⟩
  | @reports x o raised monotonic monotonic' hx hreporting =>
    obtain rfl : raised = none := he
    obtain ⟨older, begun, hrows, -⟩ := h.busy x hx (hreporting ▸ nofun)
    refine ⟨fun _ => Or.inr ⟨older, begun, ⟨w.clock, o, true⟩, ?_, List.getLast?_concat⟩, ?_⟩
    · show w.rows ++ [ServiceHeartbeat.mk o.service w.clock] = _
      rw [hrows, List.append_assoc]
      rfl
    · rintro y ⟨⟩ hbusy
      exact absurd rfl hbusy
  | dies => exact he.elim

/-- The heartbeats of the last whole cycle are among the newest three rows. -/
theorem Watch.Whole.last {w : Watch} (h : w.Whole) {r : Report} (hr : w.reports.getLast? = some r) :
    ∃ older begun rest, w.rows = older ++ ⟨.alive, begun⟩ :: r.row :: rest ∧ rest.length ≤ 1 ∧
    ∀ row ∈ rest, row.service = .alive := by
  have hcase : ∀ rows, Finished rows w.reports →
      ∃ older begun, rows = older ++ [⟨.alive, begun⟩, r.row] := by
    rintro rows (⟨-, hnone⟩ | ⟨older, begun, r', hrows, hr'⟩)
    · rw [hnone] at hr
      cases hr
    · obtain rfl := Option.some.inj (hr.symm.trans hr')
      exact ⟨older, begun, hrows⟩
  by_cases hidle : ∀ x, w.process = some x → x.pc = .top
  · obtain ⟨older, begun, hrows⟩ := hcase _ (h.idle hidle)
    exact ⟨older, begun, [], hrows, Nat.zero_le 1, nofun⟩
  · push Not at hidle
    obtain ⟨x, hx, hbusy⟩ := hidle
    obtain ⟨rows, begun', hrows, hfinished⟩ := h.busy x hx hbusy
    obtain ⟨older, begun, rfl⟩ := hcase rows hfinished
    refine ⟨older, begun, [⟨.alive, begun'⟩], by simp [hrows], le_refl 1, fun row hrow => ?_⟩
    obtain rfl := List.mem_singleton.mp hrow
    rfl

/-- A last cycle that was clean, in the newest rows. -/
theorem Watch.Whole.clean {interval : ℚ} {w : Watch} (h : w.Whole) (hok : w.Ok interval)
    {r : Report} (hr : w.reports.getLast? = some r) (hclean : r.outcome = .clean) {n : Nat}
    (hn : 3 ≤ n) :
    (∃ begun, ⟨.alive, begun⟩ ∈ newest n w.rows) ∧
      ∀ success failure, IsLatest (newest n w.rows) .success success →
        IsLatest (newest n w.rows) .failure failure →
        ∃ stamp, success = some stamp ∧ r.endedAt ≤ stamp ∧ ∀ f ∈ failure, f ≤ stamp := by
  obtain ⟨older, begun, rest, hrows, hlength, hrest⟩ := h.last hr
  have hservice : r.row.service = .success := CycleOutcome.service_success.mpr hclean
  have hsuffix : ⟨.alive, begun⟩ :: r.row :: rest <:+ newest n w.rows := by
    refine List.suffix_of_suffix_length_le ⟨older, hrows.symm⟩ (newest_suffix n w.rows) ?_
    have hlen := congrArg List.length hrows
    unfold newest
    rw [List.length_drop]
    simp only [List.length_append, List.length_cons] at hlen ⊢
    omega
  have hmem : r.row ∈ newest n w.rows := hsuffix.subset (by simp)
  refine ⟨⟨begun, hsuffix.subset (by simp)⟩, fun success failure hs hf => ?_⟩
  obtain ⟨stamp, rfl, hmax⟩ := latest_all hok.ordered hs hmem hservice
  have hended : r.endedAt ≤ stamp := hmax r.row ((newest_suffix n w.rows).subset hmem) hservice
  refine ⟨stamp, rfl, hended, fun f hfound => ?_⟩
  obtain rfl := Option.mem_def.mp hfound
  obtain ⟨⟨row, hrow, hfailure, rfl⟩, -⟩ := hf
  -- a failure came before the clean cycle
  have hin := (newest_suffix n w.rows).subset hrow
  have ho := hok.ordered
  rw [hrows] at hin ho
  obtain ⟨-, htail, hbefore⟩ := List.pairwise_append.mp ho
  rcases List.mem_append.mp hin with hin | hin
  · exact (hbefore row hin r.row (by simp)).trans hended
  · rcases List.mem_cons.mp hin with rfl | hin
    · cases hfailure
    · rcases List.mem_cons.mp hin with rfl | hin
      · rw [hservice] at hfailure
        cases hfailure
      · rw [hrest row hin] at hfailure
        cases hfailure

/-! ## Who watches -/

theorem heartbeatStatus_ok {rows : List ServiceHeartbeat} {now : Time} :
    heartbeatStatus rows now = .ok ↔
    (∃ alive, latest rows .alive = some alive ∧ now - alive ≤ 600) ∧
      ∃ success, latest rows .success = some success ∧ now - success ≤ 600 ∧
      ∀ failure ∈ latest rows .failure, failure ≤ success := by
  unfold heartbeatStatus successStaleSeconds
  cases latest rows .alive with
  | none => simp
  | some alive =>
    rcases le_or_gt (now - alive) 600 with ha | ha
    · cases latest rows .success with
      | none => simp [not_lt.mpr ha]
      | some success =>
        rcases le_or_gt (now - success) 600 with hs | hs
        · cases latest rows .failure <;>
            simp [ha, hs, not_lt.mpr ha, not_lt.mpr hs, -tsub_le_iff_right]
        · simp [hs, not_lt.mpr ha, not_le.mpr hs, -tsub_le_iff_right]
    · simp [ha, not_le.mpr ha, -tsub_le_iff_right]

theorem botCycle_ok {staleAfter : ℚ} {rows : List ServiceHeartbeat} {now : Time} :
    botCycle staleAfter rows now = .ok ↔
    ∃ success, firstSeen (newestSeen rows) .success = some success ∧ now - success ≤ staleAfter ∧
      ∀ failure ∈ firstSeen (newestSeen rows) .failure, failure ≤ success := by
  unfold botCycle
  cases firstSeen (newestSeen rows) .success with
  | none => cases firstSeen (newestSeen rows) .failure <;> simp
  | some success =>
    rcases le_or_gt (now - success) staleAfter with hs | hs
    · cases firstSeen (newestSeen rows) .failure <;> simp [hs, not_lt.mpr hs, -tsub_le_iff_right]
    · have hstale : ∀ b : Bool, (if b = true then CycleCheck.failing else .stale) ≠ .ok := by decide
      simp [hs, not_le.mpr hs, hstale, -tsub_le_iff_right]

/-- "ok" is true. Over every run of the daemon, with heartbeats that fail to be written, cycles and
scorings that raise, crashes and restarts: where the watchdog or the health page says "ok", a clean
cycle ended within its limit and no failure was recorded after it. While every heartbeat is written
and no process dies, both say so of a last cycle that was clean, for as long. And no two scorings of
a process are closer than the cadence, however they end. -/
theorem watched_truly {interval : ℚ} {clock : Time} {tr : List (WatchEvent × Watch)} {w : Watch}
    (h : Run (WatchStep interval) (Watch.start clock) tr w) (now : Time) (staleAfter : ℚ) :
    (checkOnce w.rows now = .ok → Recent w.reports 600 now ∧ ∃ row ∈ w.rows,
      row.service = .alive ∧ now - row.seenAt ≤ 600) ∧
      (botCycle staleAfter w.rows now = .ok → Recent w.reports staleAfter now) ∧
      (Each (fun _ e _ => e.Smooth) (Watch.start clock) tr →
        ∀ r, w.reports.getLast? = some r → r.outcome = .clean →
        (now - r.endedAt ≤ staleAfter → botCycle staleAfter w.rows now = .ok) ∧
        (now - r.endedAt ≤ 600 → (∃ row ∈ w.rows, row.service = .alive ∧ now - row.seenAt ≤ 600) →
          checkOnce w.rows now = .ok)) ∧
      ∀ x, w.process = some x → x.scorings.Pairwise fun a b => a + max 60 interval ≤ b := by
  have h0 : (Watch.start clock).Ok interval := ⟨List.Pairwise.nil, nofun, rfl, nofun⟩
  have hok := h.inv (Watch.Ok interval) (fun _ _ _ hw hstep => hw.step hstep) h0
  refine ⟨fun hcheck => ?_, fun hcheck => ?_, fun hsmooth r hr hclean => ?_,
    fun x hx => (hok.paced x hx).1⟩
  · obtain ⟨⟨alive, halive, hfresh⟩, success, hsuccess, hage, hfailure⟩ :=
      heartbeatStatus_ok.mp hcheck
    refine ⟨hok.recent (hsuccess ▸ checkOnce_latest w.rows .success)
      (checkOnce_latest w.rows .failure) hfailure hage, ?_⟩
    have hlatest := checkOnce_latest w.rows .alive
    rw [halive] at hlatest
    obtain ⟨⟨row, hrow, hservice, rfl⟩, -⟩ := hlatest
    exact ⟨row, (newest_suffix 200 w.rows).subset hrow, hservice, hfresh⟩
  · obtain ⟨success, hsuccess, hage, hfailure⟩ := botCycle_ok.mp hcheck
    exact hok.recent (hsuccess ▸ newestSeen_latest hok.ordered .success)
      (newestSeen_latest hok.ordered .failure) hfailure hage
  · have hwhole₀ : (Watch.start clock).Whole := ⟨fun _ => Or.inl ⟨rfl, rfl⟩, nofun⟩
    have hwhole :=
    (h.inv_each Watch.Whole (fun _ _ _ hw hstep he => hw.step hstep he) hsmooth hwhole₀).1
    constructor
    · intro hage
      obtain ⟨stamp, hsuccess, hended, hfailure⟩ :=
        (hwhole.clean hok hr hclean (by norm_num : 3 ≤ 50)).2 _ _
        (newestSeen_latest hok.ordered .success) (newestSeen_latest hok.ordered .failure)
      exact botCycle_ok.mpr ⟨stamp, hsuccess, by linarith, hfailure⟩
    · rintro hage ⟨row, hrow, hservice, hfresh⟩
      obtain ⟨⟨begun, hbegun⟩, hclean'⟩ := hwhole.clean hok hr hclean (by norm_num : 3 ≤ 200)
      obtain ⟨stamp, hsuccess, hended, hfailure⟩ :=
      hclean' _ _ (checkOnce_latest w.rows .success) (checkOnce_latest w.rows .failure)
      obtain ⟨alive, halive, hnewest⟩ :=
      latest_all hok.ordered (checkOnce_latest w.rows .alive) hbegun rfl
      have hle := hnewest row hrow hservice
      exact heartbeatStatus_ok.mpr ⟨⟨alive, halive, by linarith⟩, stamp,
        hsuccess, by linarith, hfailure⟩

/-- A clean cycle. The next finds the table locked and raises, and is reported; the process dies.
Another one works, but the heartbeat of its first cycle is lost; that of the second is written. -/
theorem watched_truly_restarted : ∃ tr tr' v w, Run (WatchStep 3600) (Watch.start 0) tr v ∧
    checkOnce v.rows 600 = .ok ∧ Run (WatchStep 3600) v tr' w ∧ checkOnce w.rows 700 = .ok ∧
    Recent w.reports 600 700 ∧ ∃ r ∈ w.reports, r.outcome = .clean ∧ r.written = false := by
  let locked : CycleError := ⟨"OperationalError", "database is locked"⟩
  let next (w : Watch) : DaemonProcess := w.process.getD .fresh
  let s₁ : Watch := { Watch.start 0 with process := some .fresh }
  let s₂ := s₁.begun (next s₁) none 0
  let s₃ := s₂.worked (next s₂) 3600 0 (.ok ⟨0, 0, 0⟩) (.ok ())
  let s₄ := s₃.reported (next s₃) .clean none 0 0
  let s₅ : Watch := { s₄ with clock := 60 }
  let s₆ := s₅.begun (next s₅) (some locked) 60
  let s₇ := s₆.worked (next s₆) 3600 60 (.error locked) (.ok ())
  let s₈ := s₇.reported (next s₇) (.raised locked) none 61 61
  let s₉ : Watch := { s₈ with process := none }
  let s₁₀ : Watch := { s₉ with process := some .fresh }
  let s₁₁ : Watch := { s₁₀ with clock := 120 }
  let s₁₂ := s₁₁.begun (next s₁₁) none 120
  let s₁₃ := s₁₂.worked (next s₁₂) 3600 120 (.ok ⟨0, 0, 0⟩) (.ok ())
  let s₁₄ := s₁₃.reported (next s₁₃) .clean (some locked) 121 121
  let s₁₅ := s₁₄.begun (next s₁₄) none 180
  let s₁₆ := s₁₅.worked (next s₁₅) 3600 180 (.ok ⟨0, 0, 0⟩) (.ok ())
  let s₁₇ := s₁₆.reported (next s₁₆) .clean none 181 181
  have hclean : Run (WatchStep 3600) (Watch.start 0) _ s₄ :=
    .cons (.starts rfl) (.cons (.begins none 0 rfl rfl)
      (.cons (.works 0 (.ok ⟨0, 0, 0⟩) (.ok ()) rfl rfl)
      (.single (.reports none 0 0 rfl (by decide +kernel)))))
  have hfailed : Run (WatchStep 3600) s₄ _ s₉ :=
    .cons (.tick 60 (by decide +kernel)) (.cons (.begins (some locked) 60 rfl rfl)
      (.cons (.works 60 (.error locked) (.ok ()) rfl rfl)
        (.cons (.reports none 61 61 rfl (by decide +kernel)) (.single .dies))))
  have hlost : Run (WatchStep 3600) s₉ _ s₁₄ :=
    .cons (.starts rfl) (.cons (.tick 120 (by decide +kernel)) (.cons (.begins none 120 rfl rfl)
      (.cons (.works 120 (.ok ⟨0, 0, 0⟩) (.ok ()) rfl rfl)
        (.single (.reports (some locked) 121 121 rfl (by decide +kernel))))))
  have hagain : Run (WatchStep 3600) s₁₄ _ s₁₇ :=
    .cons (.begins none 180 rfl rfl) (.cons (.works 180 (.ok ⟨0, 0, 0⟩) (.ok ()) rfl rfl)
      (.single (.reports none 181 181 rfl (by decide +kernel))))
  have hfirst := watched_truly hclean 600 600
  have hok : checkOnce s₄.rows 600 = .ok :=
    (hfirst.2.2.1 ⟨trivial, rfl, trivial, rfl, trivial⟩ ⟨0, .clean, true⟩ rfl rfl).2 (by norm_num)
      ⟨⟨.alive, 0⟩, List.mem_cons_self, rfl, by norm_num⟩
  have hrest := hfailed.trans (hlost.trans hagain)
  have hlast := watched_truly (hclean.trans hrest) 700 600
  have hok' : checkOnce s₁₇.rows 700 = .ok := by decide +kernel
  exact ⟨_, _, s₄, s₁₇, hclean, hok, hrest, hok', (hlast.1 hok').1, ⟨120, .clean, false⟩,
    by decide +kernel, rfl, rfl⟩

end Polycopy.Daemon
