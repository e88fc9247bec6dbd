import Mathlib.Logic.Function.Basic
import Polycopy.Lib.Run

/-!
# Denial versus ARCHIVE

The fence journal is a log with one writer lock: `BEGIN IMMEDIATE` takes it or
fails, `COMMIT` publishes what the transaction appended, an exception before that
rolls back. `invalidate` makes up to three attempts to deny a generation:

    signed     under the lock, unless archived: `ERROR` and `capture-failed.json`
    unsigned   under the lock, unless archived: `capture-failed.json`
    fallback   no lock, no look at the journal: `capture-failed.json`

Any number of processes call it, while one authenticates the archive and some run
`install_factory`. The first two attempts leave an archived spool alone; the third
only where the sidecar is there already or cannot be created.
-/

namespace Polycopy.Fence

open Runs

/-! ## The journal and the sidecar -/

/-- `type(error).__name__` and `str(error)`. -/
structure Err where
  name : String
  text : String
  deriving DecidableEq, Repr

/-- A record of the journal, by its kind. -/
inductive Entry
  | error (text : String)
  | archive
  | other (kind : String)
  deriving DecidableEq, Repr

def Entry.errorText : Entry → Option String
  | .error text => some text
  | _ => none

/-- `state()["error"]`: the text of the last `ERROR`. -/
def stateError (log : List Entry) : Option String := (log.filterMap Entry.errorText).getLast?

/-- Python's truth of a text or `None`. -/
def truthy (text : Option String) : Bool := text.getD "" ≠ ""

/-- What `replay` says to one more record: the journal is terminal after `ARCHIVE`, and
`ARCHIVE` wants no error. -/
def replays (log : List Entry) (e : Entry) : Bool :=
  .archive ∉ log ∧ (e = .archive → truthy (stateError log) = false)

/-- The bytes of `capture-failed.json`. -/
inductive Sidecar
  | torn
  | record (comparisonEligible : Bool) (error : String)
  deriving DecidableEq, Repr

/-- What becomes of a file opened with `"xb"`. -/
inductive Storage
  | written
  /-- The file is there, what was to be in it may not be. -/
  | torn
  /-- There is no file, and a line in the log of the process. -/
  | lost
  deriving DecidableEq, Repr

/-- Any existing bytes are a denial already; no exception leaves it. -/
def latch (sidecar : Option Sidecar) (error : Err) (storage : Storage) : Option Sidecar :=
  match sidecar, storage with
  | some bytes, _ => some bytes
  | none, .written => some (.record false error.name)
  | none, .torn => some .torn
  | none, .lost => none

/-! ## The processes -/

inductive Attempt
  | signed
  | unsigned
  deriving DecidableEq, Repr

/-- Where a process is in `invalidate` or in `authenticate_archive`. -/
inductive Pc
  | idle
  | begin (a : Attempt) (error : Err)
  | check (a : Attempt) (error : Err)
  | append (error : Err)
  | latch (a : Attempt) (error : Err)
  | commit (a : Attempt) (error : Err)
  | fallback (error : Err)
  | returned
  | archiving
  | sealing
  deriving DecidableEq, Repr

/-- The exception handler of an attempt. -/
def Attempt.except : Attempt → Err → Pc
  | .signed, error => .begin .unsigned error
  | .unsigned, error => .fallback error

/-- What follows the look at the journal. -/
def Attempt.unarchived : Attempt → Err → Pc
  | .signed, error => .append error
  | .unsigned, error => .latch .unsigned error

/-- What an attempt commits. -/
def Attempt.appended : Attempt → Err → List Entry
  | .signed, error => [.error error.text]
  | .unsigned, _ => []

/-- The attempt a process is in the transaction of. -/
def Pc.within : Pc → Option (Attempt × Err)
  | .check a error => some (a, error)
  | .append error => some (.signed, error)
  | .latch a error => some (a, error)
  | .commit a error => some (a, error)
  | _ => none

/-- What `install_factory` has made of a process. -/
inductive Enrolment
  | out
  | opening
  | active
  | refused
  deriving DecidableEq, Repr

structure Spool where
  log : List Entry
  writer : Option Nat
  sidecar : Option Sidecar
  localError : Nat → Option String
  pc : Nat → Pc
  enrolled : Nat → Enrolment

/-- `failed(directory)`. -/
def Spool.failed (s : Spool) : Bool := s.sidecar.isSome

def Spool.goto (s : Spool) (p : Nat) (pc : Pc) : Spool := { s with pc := Function.update s.pc p pc }

def Spool.take (s : Spool) (p : Nat) (pc : Pc) : Spool := { s.goto p pc with writer := some p }

def Spool.release (s : Spool) (p : Nat) (pc : Pc) : Spool := { s.goto p pc with writer := none }

def Spool.setLocalError (s : Spool) (p : Nat) (text : Option String) : Spool :=
  { s with localError := Function.update s.localError p text }

def Spool.enroll (s : Spool) (p : Nat) (enrolment : Enrolment) : Spool :=
  { s with enrolled := Function.update s.enrolled p enrolment }

/-- The process is gone: its lock is free, and what it had not committed is rolled back. -/
def Spool.kill (s : Spool) (p : Nat) : Spool :=
  { (s.goto p .idle).setLocalError p none |>.enroll p .out with
    writer := if s.writer = some p then none else s.writer }

inductive Event
  | call (p : Nat) (error : Err)
  | acquire (p : Nat)
  | busy (p : Nat)
  | archived (p : Nat)
  | unarchived (p : Nat)
  | append (p : Nat)
  | latch (p : Nat) (storage : Storage)
  | commit (p : Nat)
  | raises (p : Nat)
  | fallback (p : Nat) (storage : Storage)
  | resume (p : Nat)
  | crash (p : Nat)
  | beginArchive (p : Nat)
  | appendArchive (p : Nat)
  | commitArchive (p : Nat)
  | abandonArchive (p : Nat)
  | install (p : Nat)
  | refuse (p : Nat)
  | activate (p : Nat)
  | close (p : Nat)
  deriving DecidableEq, Repr

/-- What a process may do next. Each other writer of the journal shows in `busy` only, which any
wait for the lock may end in. -/
inductive Step (s : Spool) : Event → Spool → Prop
  | call {p : Nat} (error : Err) : s.pc p = .idle →
      Step s (.call p error) (s.goto p (.begin .signed error))
  | acquire {p : Nat} {a : Attempt} {error : Err} : s.pc p = .begin a error → s.writer = none →
      Step s (.acquire p) (s.take p (.check a error))
  | busy {p : Nat} {a : Attempt} {error : Err} : s.pc p = .begin a error →
      Step s (.busy p) (s.goto p (a.except error))
  | archived {p : Nat} {a : Attempt} {error : Err} : s.pc p = .check a error →
      Entry.archive ∈ s.log →
      Step s (.archived p) (s.release p .returned)
  | unarchived {p : Nat} {a : Attempt} {error : Err} : s.pc p = .check a error →
      Entry.archive ∉ s.log →
      Step s (.unarchived p) ((s.setLocalError p (some error.text)).goto p (a.unarchived error))
  | append {p : Nat} {error : Err} : s.pc p = .append error →
      replays s.log (.error error.text) = true →
      Step s (.append p) (s.goto p (.latch .signed error))
  | latch {p : Nat} {a : Attempt} {error : Err} (storage : Storage) : s.pc p = .latch a error →
      Step s (.latch p storage)
        ({ s with sidecar := latch s.sidecar error storage }.goto p (.commit a error))
  | commit {p : Nat} {a : Attempt} {error : Err} : s.pc p = .commit a error →
      Step s (.commit p) ({ s with log := s.log ++ a.appended error }.release p .returned)
  -- `state`, the signature, the insert, `COMMIT`: any of them
  | raises {p : Nat} {a : Attempt} {error : Err} : (s.pc p).within = some (a, error) →
      Step s (.raises p) (s.release p (a.except error))
  | fallback {p : Nat} {error : Err} (storage : Storage) : s.pc p = .fallback error →
      Step s (.fallback p storage)
        ({ s.setLocalError p (some error.text) with
          sidecar := latch s.sidecar error storage }.goto p .returned)
  | resume {p : Nat} : s.pc p = .returned → Step s (.resume p) (s.goto p .idle)
  | crash (p : Nat) : Step s (.crash p) (s.kill p)
  | beginArchive {p : Nat} : s.pc p = .idle → s.writer = none →
      Step s (.beginArchive p) (s.take p .archiving)
  | appendArchive {p : Nat} : s.pc p = .archiving → replays s.log .archive = true →
      Step s (.appendArchive p) (s.goto p .sealing)
  | commitArchive {p : Nat} : s.pc p = .sealing →
      Step s (.commitArchive p) ({ s with log := s.log ++ [Entry.archive] }.release p .idle)
  | abandonArchive {p : Nat} : s.pc p = .archiving ∨ s.pc p = .sealing →
      Step s (.abandonArchive p) (s.release p .idle)
  | install {p : Nat} : s.enrolled p = .out ∨ s.enrolled p = .refused →
      Step s (.install p) ((s.setLocalError p none).enroll p
        (if s.failed then .refused else .opening))
  | refuse {p : Nat} : s.enrolled p = .opening → Step s (.refuse p) (s.enroll p .refused)
  | activate {p : Nat} : s.enrolled p = .opening →
      (truthy (s.localError p) || truthy (stateError s.log)) = false →
      Step s (.activate p) (s.enroll p .active)
  | close {p : Nat} : s.enrolled p = .active → Step s (.close p) (s.enroll p .out)

/-- No process is in a call, or in a transaction. -/
structure Start (s : Spool) : Prop where
  idle : ∀ p, s.pc p = .idle
  free : s.writer = none

/-! ## The lock -/

/-- Inside a transaction. -/
def Pc.locked : Pc → Bool
  | .check .. | .append _ | .latch .. | .commit .. | .archiving | .sealing => true
  | _ => false

/-- Inside a transaction that has found no `ARCHIVE`. -/
def Pc.cleared : Pc → Bool
  | .append _ | .latch .. | .commit .. | .sealing => true
  | _ => false

theorem Pc.locked_of_cleared {pc : Pc} (h : pc.cleared = true) : pc.locked = true := by
  cases pc <;> first | rfl | cases h

theorem Pc.locked_of_within {pc : Pc} {a : Attempt} {error : Err}
    (h : pc.within = some (a, error)) :
    pc.locked = true := by
  cases pc <;> first | rfl | cases h

/-- The writer is the one process inside a transaction, and what it has read of
`ARCHIVE` still stands. -/
structure Inv (s : Spool) : Prop where
  held : ∀ p, (s.pc p).locked = true ↔ s.writer = some p
  clear : ∀ p, (s.pc p).cleared = true → Entry.archive ∉ s.log

theorem Start.inv {s : Spool} (h : Start s) : Inv s where
  held p := by
    rw [h.idle p, h.free]
    exact ⟨fun hp => (nomatch hp), fun hp => (nomatch hp)⟩
  clear p hp := by
    rw [h.idle p] at hp
    cases hp

section Moves

variable {s : Spool} {p : Nat} {pc : Pc}

theorem Spool.goto_self : (s.goto p pc).pc p = pc := Function.update_self ..

theorem Spool.goto_other {q : Nat} (hq : q ≠ p) : (s.goto p pc).pc q = s.pc q :=
  Function.update_of_ne hq ..

/-- Nobody else is inside a transaction. -/
theorem Inv.alone (h : Inv s) (hp : (s.pc p).locked = true) {q : Nat} (hq : q ≠ p) :
    (s.pc q).locked = false := by
  have hw := (h.held p).mp hp
  refine Bool.eq_false_iff.mpr fun hlocked => hq ?_
  have hw' := (h.held q).mp hlocked
  exact Option.some.inj (hw'.symm.trans hw)

theorem Inv.goto (h : Inv s) (hlocked : pc.locked = (s.pc p).locked)
    (hclear : pc.cleared = true → Entry.archive ∉ s.log) : Inv (s.goto p pc) where
  held q := by
    rcases eq_or_ne q p with rfl | hq
    · rw [Spool.goto_self, hlocked]
      exact h.held q
    · rw [Spool.goto_other hq]
      exact h.held q
  clear q hq' := by
    rcases eq_or_ne q p with rfl | hq
    · rw [Spool.goto_self] at hq'
      exact hclear hq'
    · rw [Spool.goto_other hq] at hq'
      exact h.clear q hq'

theorem Inv.take (h : Inv s) (hfree : s.writer = none) (hlocked : pc.locked = true)
    (hclear : pc.cleared = false) :
    Inv (s.take p pc) where
  held q := by
    rcases eq_or_ne q p with rfl | hq
    · exact ⟨fun _ => rfl, fun _ => (congrArg Pc.locked (Spool.goto_self (s := s))).trans hlocked⟩
    · refine ⟨fun hq' => ?_, fun hw => absurd (Option.some.inj hw).symm hq⟩
      have hw := (h.held q).mp ((congrArg Pc.locked (Spool.goto_other hq)).symm.trans hq')
      rw [hfree] at hw
      cases hw
  clear q hq' := by
    rcases eq_or_ne q p with rfl | hq
    · have hc := (congrArg Pc.cleared (Spool.goto_self (s := s) (p := q))).symm.trans hq'
      rw [hclear] at hc
      cases hc
    · exact h.clear q ((congrArg Pc.cleared (Spool.goto_other hq)).symm.trans hq')

/-- Whatever the transaction has made of the journal, nobody is left inside one. -/
theorem Inv.release (h : Inv s) (hp : (s.pc p).locked = true)
    (hlocked : pc.locked = false) (log : List Entry) :
    Inv ({ s with log := log }.release p pc) := by
  have hnone : ∀ q, ((s.goto p pc).pc q).locked = false := by
    intro q
    rcases eq_or_ne q p with rfl | hq
    · rwa [Spool.goto_self]
    · rw [Spool.goto_other hq]
      exact h.alone hp hq
  constructor
  · intro q
    exact ⟨fun hq => absurd ((hnone q).symm.trans hq) Bool.false_ne_true, fun hq => nomatch hq⟩
  · intro q hq
    exact absurd ((hnone q).symm.trans (Pc.locked_of_cleared hq)) Bool.false_ne_true

theorem Inv.kill (h : Inv s) : Inv (s.kill p) where
  held q := by
    show ((s.goto p .idle).pc q).locked = true ↔
      (if s.writer = some p then none else s.writer) = some q
    rcases eq_or_ne q p with rfl | hq
    · rw [Spool.goto_self]
      refine ⟨fun hq' => (nomatch hq'), fun hw => ?_⟩
      split at hw <;> contradiction
    · rw [Spool.goto_other hq, h.held q]
      split
      next hw =>
        rw [hw]
        exact ⟨fun he => absurd (Option.some.inj he).symm hq, fun he => nomatch he⟩
      · rfl
  clear q hq' := by
    have hc : ((s.goto p .idle).pc q).cleared = true := hq'
    rcases eq_or_ne q p with rfl | hq
    · rw [Spool.goto_self] at hc
      cases hc
    · rw [Spool.goto_other hq] at hc
      exact h.clear q hc

end Moves

theorem not_archived_of_replays {log : List Entry} {e : Entry}
    (h : replays log e = true) : Entry.archive ∉ log :=
  (of_decide_eq_true h).1

theorem Step.inv {s t : Spool} {e : Event} (h : Step s e t) (hi : Inv s) : Inv t := by
  cases h with
  | call error hpc => exact hi.goto (by rw [hpc]; rfl) (fun hc => nomatch hc)
  | acquire hpc hfree => exact hi.take hfree rfl rfl
  | @busy p a error hpc =>
    refine hi.goto ?_ (fun hc => ?_)
    · rw [hpc]
      cases a <;> rfl
    · cases a <;> cases hc
  | archived hpc _ => exact hi.release (by rw [hpc]; rfl) rfl s.log
  | @unarchived p a error hpc hclear =>
    have hi' : Inv (s.setLocalError p (some error.text)) := ⟨hi.held, hi.clear⟩
    refine hi'.goto ?_ (fun _ => hclear)
    show _ = (s.pc p).locked
    rw [hpc]
    cases a <;> rfl
  | append hpc hreplay =>
    exact hi.goto (by rw [hpc]; rfl) (fun _ => not_archived_of_replays hreplay)
  | @latch p a error storage hpc =>
    have hi' : Inv { s with sidecar := Fence.latch s.sidecar error storage } := ⟨hi.held, hi.clear⟩
    refine hi'.goto ?_ (fun _ => hi.clear p (by rw [hpc]; rfl))
    show _ = (s.pc p).locked
    rw [hpc]
    rfl
  | commit hpc => exact hi.release (by rw [hpc]; rfl) rfl _
  | @raises p a error hwithin =>
    refine hi.release (Pc.locked_of_within hwithin) ?_ s.log
    cases a <;> rfl
  | @fallback p error storage hpc =>
    have hi' : Inv { s.setLocalError p (some error.text) with
      sidecar := Fence.latch s.sidecar error storage } :=
      ⟨hi.held, hi.clear⟩
    refine hi'.goto ?_ (fun hc => nomatch hc)
    show _ = (s.pc p).locked
    rw [hpc]
    rfl
  | resume hpc => exact hi.goto (by rw [hpc]; rfl) (fun hc => nomatch hc)
  | crash p => exact hi.kill
  | beginArchive hpc hfree => exact hi.take hfree rfl rfl
  | appendArchive hpc hreplay =>
    exact hi.goto (by rw [hpc]; rfl) (fun _ => not_archived_of_replays hreplay)
  | commitArchive hpc => exact hi.release (by rw [hpc]; rfl) rfl _
  | abandonArchive hpc =>
    exact hi.release (by rcases hpc with hpc | hpc <;> rw [hpc] <;> rfl) rfl s.log
  | install hout => exact ⟨hi.held, hi.clear⟩
  | refuse hopening => exact ⟨hi.held, hi.clear⟩
  | activate hopening _ => exact ⟨hi.held, hi.clear⟩
  | close hactive => exact ⟨hi.held, hi.clear⟩

/-! ## After ARCHIVE -/

/-- After `ARCHIVE` the journal and the sidecar are what they were. -/
def Quiet (s : Spool) (_ : Event) (t : Spool) : Prop :=
  Entry.archive ∈ s.log → t.log = s.log ∧ t.sidecar = s.sidecar

/-- After `ARCHIVE` nothing is journaled. -/
def Terminal (s : Spool) (_ : Event) (t : Spool) : Prop := Entry.archive ∈ s.log → t.log = s.log

/-- The third attempt creates the sidecar of an archived spool. -/
def Late (s : Spool) : Event → Prop
  | .fallback _ storage => Entry.archive ∈ s.log ∧ s.sidecar = none ∧ storage ≠ .lost
  | _ => False

theorem latch_eq_iff (sidecar : Option Sidecar) (error : Err) (storage : Storage) :
    latch sidecar error storage = sidecar ↔ ¬ (sidecar = none ∧ storage ≠ .lost) := by
  cases sidecar <;> cases storage <;> simp [latch]

theorem latch_kept {sidecar : Option Sidecar} (error : Err) (storage : Storage)
    (h : sidecar.isSome = true) :
    (latch sidecar error storage).isSome = true := by
  obtain ⟨bytes, rfl⟩ := Option.isSome_iff_exists.mp h
  rfl

theorem latch_created (sidecar : Option Sidecar) (error : Err)
    {storage : Storage} (h : storage ≠ .lost) :
    (latch sidecar error storage).isSome = true := by
  cases sidecar <;> cases storage <;> first | rfl | contradiction

theorem Step.terminal {s t : Spool} {e : Event} (h : Step s e t) (hi : Inv s) : Terminal s e t := by
  intro ha
  cases h with
  | @commit p a error hpc => exact absurd ha (hi.clear p (by rw [hpc]; rfl))
  | @commitArchive p hpc => exact absurd ha (hi.clear p (by rw [hpc]; rfl))
  | _ => rfl

theorem Step.quiet_iff {s t : Spool} {e : Event} (h : Step s e t) (hi : Inv s) :
    Quiet s e t ↔ ¬ Late s e := by
  cases h with
  | @latch p a error storage hpc =>
    exact iff_of_true (fun ha => absurd ha (hi.clear p (by rw [hpc]; rfl))) id
  | @commit p a error hpc =>
    exact iff_of_true (fun ha => absurd ha (hi.clear p (by rw [hpc]; rfl))) id
  | @commitArchive p hpc =>
    exact iff_of_true (fun ha => absurd ha (hi.clear p (by rw [hpc]; rfl))) id
  | @fallback p error storage hpc =>
    have hlatch := latch_eq_iff s.sidecar error storage
    exact ⟨fun hq hl => hlatch.mp (hq hl.1).2 hl.2,
      fun hl ha => ⟨rfl, hlatch.mpr fun hc => hl ⟨ha, hc⟩⟩⟩
  | _ => exact iff_of_true (fun _ => ⟨rfl, rfl⟩) id

/-! ## Without ARCHIVE -/

/-- The directory takes a new file. -/
def Writable (_ : Spool) (e : Event) (_ : Spool) : Prop :=
  ∀ p, e ≠ .latch p .lost ∧ e ≠ .fallback p .lost

/-- Past its `latch`, or back from the call. -/
def Pc.latched : Pc → Bool
  | .commit .. | .returned => true
  | _ => false

/-- Past the look at the sidecar. -/
def Enrolment.admitted : Enrolment → Bool
  | .opening | .active => true
  | _ => false

/-- `install_factory` does not get past the look at the sidecar. -/
def Refuses (_ : Spool) (e : Event) (t : Spool) : Prop :=
  ∀ p, e = .install p → t.enrolled p = .refused

/-- The sidecar is there for good: no later `install_factory` activates. -/
def Denied (t : Spool) : Prop :=
  t.failed = true ∧ ∀ tr u, Run Step t tr u → u.failed = true ∧ Each Refuses t tr ∧
    ∀ p, (u.enrolled p).admitted = true → (t.enrolled p).admitted = true

def Event.process : Event → Nat
  | .call p _ | .acquire p | .busy p | .archived p | .unarchived
      p | .append p | .latch p _ | .commit p
  | .raises p | .fallback p _ | .resume p | .crash p | .beginArchive
      p | .appendArchive p | .commitArchive p
  | .abandonArchive p | .install p | .refuse p | .activate p | .close p => p

/-- Neither record is taken back. -/
theorem Step.grows {s t : Spool} {e : Event} (h : Step s e t) :
    (Entry.archive ∈ s.log → Entry.archive ∈ t.log) ∧ (s.failed = true → t.failed = true) := by
  cases h with
  | latch storage hpc => exact ⟨id, latch_kept _ storage⟩
  | fallback storage hpc => exact ⟨id, latch_kept _ storage⟩
  | commit hpc => exact ⟨fun ha => List.mem_append_left _ ha, id⟩
  | commitArchive hpc => exact ⟨fun ha => List.mem_append_left _ ha, id⟩
  | _ => exact ⟨id, id⟩

/-- No other process moves. -/
theorem Step.frame {s t : Spool} {e : Event} (h : Step s e t) {q : Nat} (hq : q ≠ e.process) :
    t.pc q = s.pc q ∧ t.enrolled q = s.enrolled q := by
  cases h with
  | crash p => exact ⟨Function.update_of_ne hq .., Function.update_of_ne hq ..⟩
  | install hout => exact ⟨rfl, Function.update_of_ne hq ..⟩
  | refuse hopening => exact ⟨rfl, Function.update_of_ne hq ..⟩
  | activate hopening _ => exact ⟨rfl, Function.update_of_ne hq ..⟩
  | close hactive => exact ⟨rfl, Function.update_of_ne hq ..⟩
  | _ => exact ⟨Function.update_of_ne hq .., rfl⟩

/-- Who is past its `latch`, or back, has found `ARCHIVE` or left a sidecar. -/
def Retained (s : Spool) : Prop := ∀ p, (s.pc p).latched = true →
    Entry.archive ∈ s.log ∨ s.failed = true

theorem not_latched {f : Nat → Pc} {p : Nat} {pc : Pc}
    (h : (Function.update f p pc p).latched = true) (hpc : pc.latched = false) : False := by
  rw [Function.update_self, hpc] at h
  cases h

theorem Step.latched {s t : Spool} {e : Event} (h : Step s e t) (hw : Writable s e t)
    (hp : (t.pc e.process).latched = true) :
    (s.pc e.process).latched = true ∨ Entry.archive ∈ t.log ∨ t.failed = true := by
  cases h with
  | archived hpc ha => exact .inr (.inl ha)
  | @latch p a error storage hpc =>
    exact .inr (.inr (latch_created _ _ fun hlost => (hw p).1 (by rw [hlost])))
  | @fallback p error storage hpc =>
    exact .inr (.inr (latch_created _ _ fun hlost => (hw p).2 (by rw [hlost])))
  | commit hpc => exact .inl (congrArg Pc.latched hpc)
  | @busy p a error hpc => exact (not_latched hp (by cases a <;> rfl)).elim
  | @unarchived p a error hpc _ => exact (not_latched hp (by cases a <;> rfl)).elim
  | @raises p a error hwithin => exact (not_latched hp (by cases a <;> rfl)).elim
  | install hout => exact .inl hp
  | refuse hopening => exact .inl hp
  | activate hopening _ => exact .inl hp
  | close hactive => exact .inl hp
  | _ => exact (not_latched hp rfl).elim

theorem Step.retained {s t : Spool} {e : Event} (h : Step s e t)
    (hw : Writable s e t) (hr : Retained s) :
    Retained t := by
  intro q hq
  have hkept : (s.pc q).latched = true → Entry.archive ∈ t.log ∨ t.failed = true :=
    fun hs => (hr q hs).imp h.grows.1 h.grows.2
  by_cases hqp : q = e.process
  · subst hqp
    exact (h.latched hw hq).elim hkept id
  · rw [(h.frame hqp).1] at hq
    exact hkept hq

theorem Start.retained {s : Spool} (h : Start s) : Retained s := by
  intro p hp
  rw [h.idle p] at hp
  cases hp

theorem Step.refuses {s t : Spool} {e : Event} (h : Step s e t)
    (hf : s.failed = true) : Refuses s e t := by
  rintro p rfl
  cases h with
  | install hout =>
    show Function.update s.enrolled p (if s.failed then .refused else .opening) p = .refused
    rw [Function.update_self, if_pos hf]

theorem Step.admitted {s t : Spool} {e : Event} (h : Step s e t) (hf : s.failed = true) {q : Nat}
    (hq : (t.enrolled q).admitted = true) : (s.enrolled q).admitted = true := by
  by_cases hqp : q = e.process
  · subst hqp
    cases h with
    | crash p => cases ((congrArg Enrolment.admitted (Function.update_self ..)).symm.trans hq)
    | @install p hout =>
      have hr := (Step.install hout).refuses hf p rfl
      cases ((congrArg Enrolment.admitted hr).symm.trans hq)
    | refuse hopening => exact congrArg Enrolment.admitted hopening
    | activate hopening _ => exact congrArg Enrolment.admitted hopening
    | close hactive => exact congrArg Enrolment.admitted hactive
    | _ => exact hq
  · rw [(h.frame hqp).2] at hq
    exact hq

theorem denied_of_failed {t : Spool} (hf : t.failed = true) : Denied t := by
  refine ⟨hf, fun tr u h => ⟨?_, ?_, fun p => ?_⟩⟩
  · exact h.inv (fun v => v.failed = true) (fun _ _ _ hv hs => hs.grows.2 hv) hf
  · exact h.each (fun v => v.failed = true) (fun _ _ _ hv hs => hs.grows.2 hv)
      (fun _ _ _ hv hs => hs.refuses hv) hf
  · have hboth := h.inv (fun v => v.failed = true ∧
      ((v.enrolled p).admitted = true → (t.enrolled p).admitted = true))
      (fun _ _ _ hv hs => ⟨hs.grows.2 hv.1, fun hp => hv.2 (hs.admitted hv.1 hp)⟩) ⟨hf, id⟩
    exact hboth.2

/-- **Denial versus ARCHIVE.** No run journals anything after `ARCHIVE`, and a run leaves the
sidecar of an archived spool alone exactly when the third attempt creates none there. Where
`ARCHIVE` is not committed and the directory takes the file, a call that has returned has denied
the generation for good. -/
theorem invalidate_versus_archive {s t : Spool} {tr : List (Event × Spool)}
    (h0 : Start s) (h : Run Step s tr t) :
    Each Terminal s tr ∧ (Each Quiet s tr ↔ Each (fun s e _ => ¬ Late s e) s tr) ∧
      (Each Writable s tr → ∀ p, t.pc p = .returned → Entry.archive ∉ t.log → Denied t) := by
  refine ⟨?_, ?_, ?_⟩
  · exact h.each Inv (fun _ _ _ hi hs => hs.inv hi) (fun _ _ _ hi hs => hs.terminal hi) h0.inv
  · exact h.each_iff Inv (fun _ _ _ hi hs _ => hs.inv hi) (fun _ _ _ hi hs => hs.quiet_iff hi) h0.inv
  · intro hw p hp harchive
    have hr := (h.inv_each Retained (fun _ _ _ hr hs hw => hs.retained hw hr) hw h0.retained).1
    exact denied_of_failed ((hr p (by rw [hp]; rfl)).resolve_left harchive)

/-- A frozen population, with no call under way. -/
def frozen : Spool where
  log := [.other "ARM", .other "FENCE", .other "FREEZE"]
  writer := none
  sidecar := none
  localError := fun _ => none
  pc := fun _ => .idle
  enrolled := fun _ => .active

theorem start_frozen : Start frozen := ⟨fun _ => rfl, rfl⟩

/-- The error of an observer whose disk fails. -/
def unreadable : Err := ⟨"OSError", "disk I/O error"⟩

theorem invalidate_versus_archive_signed : ∃ tr t, Run Step frozen tr t ∧ Each Quiet frozen tr ∧
    t.log = frozen.log ++ [.error "disk I/O error"] ∧
    t.sidecar = some (.record false "OSError") ∧ Denied t := by
  have h1 := Run.single (Step.call (s := frozen) (p := 1) unreadable rfl)
  have h2 := h1.snoc _ _ (Step.acquire (p := 1) rfl rfl)
  have h3 := h2.snoc _ _ (Step.unarchived (p := 1) rfl (by decide))
  have h4 := h3.snoc _ _ (Step.append (p := 1) rfl (by decide))
  have h5 := h4.snoc _ _ (Step.latch (p := 1) .written rfl)
  have h6 := h5.snoc _ _ (Step.commit (p := 1) rfl)
  obtain ⟨-, hquiet, hdenied⟩ := invalidate_versus_archive start_frozen h6
  refine ⟨_, _, h6, hquiet.mpr ?_, rfl, rfl, hdenied ?_ 1 rfl (by decide)⟩
  · exact ⟨id, id, id, id, id, id, trivial⟩
  · simp [Each, Writable]

/-- Both waits of process 1 for the lock end while process 2 commits `ARCHIVE`;
then process 1 latches. -/
theorem sidecar_after_archive : ¬ ∀ s t tr, Start s → Run Step s tr t → Each Quiet s tr := by
  intro hall
  have h1 := Run.single (Step.beginArchive (s := frozen) (p := 2) rfl rfl)
  have h2 := h1.snoc _ _ (Step.call (p := 1) unreadable rfl)
  have h3 := h2.snoc _ _ (Step.busy (p := 1) rfl)
  have h4 := h3.snoc _ _ (Step.busy (p := 1) rfl)
  have h5 := h4.snoc _ _ (Step.appendArchive (p := 2) rfl (by decide))
  have h6 := h5.snoc _ _ (Step.commitArchive (p := 2) rfl)
  have h7 := h6.snoc _ _ (Step.fallback (p := 1) .written rfl)
  have hquiet := ((each_snoc _ _ _ _ _).mp (hall _ _ _ start_frozen h7)).2
  rw [h6.last_eq] at hquiet
  cases (hquiet (by decide)).2

end Polycopy.Fence
