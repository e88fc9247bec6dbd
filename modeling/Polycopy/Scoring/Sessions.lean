import Polycopy.Api.Routes
import Polycopy.Lib.Run

/-!
# Scorers and reviewers on the same wallets

`score_all_wallets` loads its wallets once and keeps the objects; their
attributes are read again only after a rollback.  `_apply_verdict` decides on the
loaded state: the flush sends `UPDATE wallets` when the state changed, then the
open entries are selected, then everything is committed.  `transition_wallet` is
a conditional `UPDATE`, the same query, and a commit.

Transactions run at READ COMMITTED: a query sees what is committed, an `UPDATE`
waits for the row and holds it until its transaction ends.  Each query and each
commit is one step, and any session may run between two of them.
-/

namespace Polycopy

open Runs

def ApprovalState.automatic (state : ApprovalState) : Bool :=
  state = .discovered || state = .pendingReview

/-! ## Sessions -/

/-- A row of `approval_queue` under its number. -/
structure QueueRow where
  id : Nat
  entry : ApprovalQueueEntry
  deriving DecidableEq, Repr

/-- What a transaction is to do with a wallet and its open entry. -/
inductive Purpose
  /-- The verdict is `pending_review` and so is the loaded state: no `UPDATE`. -/
  | keepQueued
  | queue
  | withdraw
  | decide (action : TransitionAction)
  deriving DecidableEq, Repr

/-- The value of the `UPDATE`. -/
def Purpose.write : Purpose → Option ApprovalState
  | .keepQueued => none
  | .queue => some .pendingReview
  | .withdraw => some .discovered
  | .decide action => some (allowedTransitions action).2

def Purpose.human : Purpose → Bool
  | .decide _ => true
  | _ => false

/-- `_apply_verdict` up to its query, by the state of the object. -/
def judge (pendingReview : Bool) (state : ApprovalState) : Option Purpose :=
  if state ≠ .discovered ∧ state ≠ .pendingReview then none
  else if pendingReview then some (if state = .pendingReview then .keepQueued else .queue)
  else if state = .pendingReview then some .withdraw
  else none

structure ReviewJob where
  walletId : Nat
  purpose : Purpose
  now : Time
  deriving DecidableEq, Repr

/-- The wallets a scorer has yet to score, with the loaded state; none once it has expired. -/
abbrev Todo := List (Nat × Option ApprovalState)

inductive ReviewPc
  | idle
  | scoring (todo : Todo)
  /-- The `UPDATE`, if there is one, has been sent. -/
  | looking (job : ReviewJob) (rest : Todo)
  /-- The open entries found, and the state that was committed when they were looked for. -/
  | closing (job : ReviewJob) (found : List Nat) (seen : Option ApprovalState) (rest : Todo)
  /-- `MultipleResultsFound`. -/
  | raised (job : ReviewJob) (rest : Todo)
  deriving DecidableEq, Repr

/-- The committed rows, who holds the lock of a wallet's row, and the sessions.  `decided` only
records about which wallets a human decision has been committed. -/
structure Review (ι : Type) where
  wallets : List Wallet
  queue : List QueueRow
  locks : Nat → Option ι
  pcs : ι → ReviewPc
  decided : List Nat

inductive ReviewEvent (ι : Type)
  | add (w : Wallet)
  | load (p : ι) (rows : List (Nat × ApprovalState))
  /-- No verdict for the next wallet: its bootstrap is not done, or an exception came before one. -/
  | pass (p : ι)
  | verdict (p : ι) (pendingReview : Bool) (now : Time)
  | transition (p : ι) (walletId : Nat) (action : TransitionAction) (now : Time)
  | look (p : ι)
  | commit (p : ι) (now : Time)
  | rollback (p : ι)
  /-- The session is closed or its process dies. -/
  | stop (p : ι)

variable {ι : Type} [DecidableEq ι]

namespace Review

def stateOf (s : Review ι) (id : Nat) : Option ApprovalState :=
  (Keyed.find Wallet.id id s.wallets).map Wallet.approvalState

/-- The rows of `select(Wallet).where(approval_state.in_(…))`, as far as scoring reads them. -/
def candidates (s : Review ι) : List (Nat × ApprovalState) :=
  (s.wallets.filter fun w => w.approvalState.automatic).map fun w => (w.id, w.approvalState)

def openRows (s : Review ι) (id : Nat) : List QueueRow :=
  s.queue.filter fun r => r.entry.isPendingOf id

def goto (s : Review ι) (p : ι) (pc : ReviewPc) : Review ι :=
  { s with pcs := Function.update s.pcs p pc }

def lock (s : Review ι) (p : ι) (id : Nat) : Review ι :=
  { s with locks := Function.update s.locks id (some p) }

/-- The end of a transaction. -/
def unlock (s : Review ι) (p : ι) : Review ι :=
  { s with locks := fun id => if s.locks id = some p then none else s.locks id }

/-- The transaction sends its `UPDATE`, if it has one and nobody holds the row. -/
def start (s : Review ι) (p : ι) (job : ReviewJob) (rest : Todo) : Option (Review ι) :=
  match job.purpose.write with
  | none => some (s.goto p (.looking job rest))
  | some _ =>
    if s.locks job.walletId = none then some ((s.lock p job.walletId).goto p (.looking job rest))
    else none

end Review

def setRows (found : List Nat) (state : QueueState) (reviewer : String)
    (now : Time) (queue : List QueueRow) :
    List QueueRow :=
  queue.map fun r => if r.id ∈ found then
    { r with entry := { r.entry with
      state := state, decidedAt := some now, reviewer := some reviewer } } else r

/-- What the last flush does to the queue. -/
def ReviewJob.closeQueue (job : ReviewJob) (found : List Nat) (now : Time)
    (queue : List QueueRow) : List QueueRow :=
  match job.purpose with
  | .keepQueued | .queue =>
    if found = [] then
      queue ++ [⟨Keyed.fresh QueueRow.id queue, ⟨job.walletId, .pending, none, none⟩⟩]
    else
      queue
  | .withdraw => setRows found .withdrawn "scorer" now queue
  | .decide action =>
    setRows found (.ofApproval (allowedTransitions action).2) "human:api" now queue

def ReviewJob.updateWallets (job : ReviewJob) (wallets : List Wallet) : List Wallet :=
  match job.purpose.write with
  | none => wallets
  | some target => Keyed.update Wallet.id job.walletId (Wallet.moveTo target job.now) wallets

/-- What a commit makes of the tables. -/
def Review.write (s : Review ι) (job : ReviewJob) (found : List Nat) (now : Time) : Review ι :=
  { s with
    wallets := job.updateWallets s.wallets
    queue := job.closeQueue found now s.queue
    decided := if job.purpose.human then job.walletId :: s.decided else s.decided }

def Todo.expire (todo : Todo) : Todo := todo.map fun ws => (ws.1, none)

/-- A scorer's remaining wallets, in a transaction or between two. -/
def ReviewPc.todo : ReviewPc → Option Todo
  | .idle => none
  | .scoring todo => some todo
  | .looking job rest | .closing job _ _ rest | .raised job rest =>
    if job.purpose.human then none else some rest

def Review.next (s : Review ι) : ReviewEvent ι → Option (Review ι)
  | .add w =>
    if w.id = Keyed.fresh Wallet.id s.wallets ∧ w.approvalState = .discovered then
      some { s with wallets := s.wallets ++ [w] } else none
  | .load p rows =>
    if s.pcs p = .idle ∧ rows.Perm s.candidates then
      some (s.goto p (.scoring (rows.map fun row => (row.1, some row.2)))) else none
  | .pass p => match s.pcs p with
    | .scoring (_ :: rest) => some (s.goto p (.scoring rest))
    | _ => none
  | .verdict p pendingReview now => match s.pcs p with
    | .scoring ((id, loaded) :: rest) =>
      -- an expired attribute is read from the row
      match loaded.or (s.stateOf id) with
      | some state => match judge pendingReview state with
        | some purpose => s.start p ⟨id, purpose, now⟩ rest
        | none => some (s.goto p (.scoring rest))
      | none => none
    | _ => none
  | .transition p id action now =>
    -- where no row matches the request is refused and nothing changes
    if s.pcs p = .idle ∧ s.stateOf id = some (allowedTransitions action).1 then
      s.start p ⟨id, .decide action, now⟩ [] else none
  | .look p => match s.pcs p with
    | .looking job rest =>
      let found := (s.openRows job.walletId).map QueueRow.id
      if job.purpose ≠ .withdraw ∧ 1 < found.length then some (s.goto p (.raised job rest))
      else some (s.goto p (.closing job found (s.stateOf job.walletId) rest))
    | _ => none
  | .commit p now => match s.pcs p with
    | .closing job found _ rest =>
      some (((s.write job found now).unlock p).goto p
        (if job.purpose.human then .idle else .scoring rest))
    | _ => none
  | .rollback p => match (s.pcs p).todo with
    | some rest => some ((s.unlock p).goto p (.scoring rest.expire))
    | none => none
  | .stop p => some ((s.unlock p).goto p .idle)

abbrev ReviewStep : Review ι → ReviewEvent ι → Review ι → Prop := Next Review.next

/-! ## What a step does -/

/-- The transaction a session is in. -/
def ReviewPc.job : ReviewPc → Option ReviewJob
  | .looking job _ | .closing job _ _ _ | .raised job _ => some job
  | _ => none

/-- The wallets a session has to do with. -/
def ReviewPc.ids : ReviewPc → List Nat
  | .idle => []
  | .scoring todo => todo.map Prod.fst
  | .looking job rest | .closing job _ _ rest | .raised job rest =>
    job.walletId :: rest.map Prod.fst

/-- A session that goes on at `pc` has loaded nothing but wallets that are there. -/
def Refers (s : Review ι) (p : ι) (pc : ReviewPc) : Prop :=
  ∀ id ∈ pc.ids, id ∈ (s.pcs p).ids ∨ (s.stateOf id).isSome = true

inductive StepCase (s : Review ι) (e : ReviewEvent ι) (t : Review ι) : Prop
  | added (w : Wallet) (fresh : w.id = Keyed.fresh Wallet.id s.wallets)
      (state : w.approvalState = .discovered)
      (event : e = .add w) (after : t = { s with wallets := s.wallets ++ [w] })
  -- a session that is in no transaction goes on without one
  | moved (p : ι) (pc : ReviewPc) (quiet : ∀ p now, e ≠ .commit p now)
      (before : (s.pcs p).job = none)
      (none : pc.job = none) (refers : Refers s p pc) (after : t = s.goto p pc)
  | started (p : ι) (job : ReviewJob) (rest : Todo) (quiet : ∀ p now, e ≠ .commit p now)
      (before : (s.pcs p).job = none)
      (reads : job.purpose.write = none) (refers : Refers s p (.looking job rest))
        (after : t = s.goto p (.looking job rest))
  | locked (p : ι) (job : ReviewJob) (rest : Todo) (quiet : ∀ p now, e ≠ .commit p now)
      (before : (s.pcs p).job = none)
      (writes : job.purpose.write.isSome = true) (free : s.locks job.walletId = none)
      (matched : ∀ action, job.purpose = .decide action →
        s.stateOf job.walletId = some (allowedTransitions action).1)
      (refers : Refers s p (.looking job rest))
        (after : t = (s.lock p job.walletId).goto p (.looking job rest))
  | looked (p : ι) (job : ReviewJob) (rest : Todo) (event : e = .look p)
      (pc : s.pcs p = .looking job rest)
      (single : job.purpose = .withdraw ∨ (s.openRows job.walletId).length ≤ 1)
      (after : t = s.goto p (.closing job ((s.openRows job.walletId).map QueueRow.id)
        (s.stateOf job.walletId) rest))
  | raised (p : ι) (job : ReviewJob) (rest : Todo) (event : e = .look p)
      (pc : s.pcs p = .looking job rest)
      (several : 1 < (s.openRows job.walletId).length) (after : t = s.goto p (.raised job rest))
  | committed (p : ι) (now : Time) (job : ReviewJob) (found : List Nat)
      (seen : Option ApprovalState) (rest : Todo)
      (event : e = .commit p now) (pc : s.pcs p = .closing job found seen rest)
      (after : t = ((s.write job found now).unlock p).goto p
        (if job.purpose.human then .idle else .scoring rest))
  | ended (p : ι) (pc : ReviewPc) (quiet : ∀ p now, e ≠ .commit p now) (none : pc.job = none)
      (refers : Refers s p pc) (after : t = (s.unlock p).goto p pc)

theorem judge_scorer {pendingReview : Bool} {state : ApprovalState} {purpose : Purpose}
    (h : judge pendingReview state = some purpose) : purpose.human = false := by
  unfold judge at h
  split at h
  · cases h
  · split at h
    · obtain rfl := Option.some.inj h
      split <;> rfl
    · split at h
      · obtain rfl := Option.some.inj h
        rfl
      · cases h

omit [DecidableEq ι] in
theorem candidates_known {s : Review ι} {row : Nat × ApprovalState} (h : row ∈ s.candidates) :
    (s.stateOf row.1).isSome = true := by
  obtain ⟨w, hw, rfl⟩ := List.mem_map.mp h
  unfold Review.stateOf
  rw [Option.isSome_map]
  by_contra hnone
  exact (Keyed.find_none Wallet.id).mp (Option.not_isSome_iff_eq_none.mp hnone) w
    (List.mem_of_mem_filter hw) rfl

theorem start_case {s t : Review ι} {e : ReviewEvent ι} {p : ι} {job : ReviewJob} {rest : Todo}
    (h : s.start p job rest = some t) (quiet : ∀ p now, e ≠ .commit p now)
    (before : (s.pcs p).job = none)
    (matched : ∀ action, job.purpose = .decide action →
      s.stateOf job.walletId = some (allowedTransitions action).1)
    (refers : Refers s p (.looking job rest)) : StepCase s e t := by
  unfold Review.start at h
  split at h
  · next hw => exact .started p job rest quiet before hw refers (Option.some.inj h).symm
  · next target hw =>
    split at h
    · next hfree =>
      exact .locked p job rest quiet before (by rw [hw]; rfl) hfree matched refers
        (Option.some.inj h).symm
    · cases h

omit [DecidableEq ι] in
theorem refers_rest {s : Review ι} {p : ι} {id : Nat} {loaded : Option ApprovalState} {rest : Todo}
    (h : s.pcs p = .scoring ((id, loaded) :: rest)) : Refers s p (.scoring rest) := by
  intro id' hid
  left
  rw [h]
  exact List.mem_cons_of_mem _ hid

omit [DecidableEq ι] in
theorem refers_expired {s : Review ι} {p : ι} {rest : Todo} (h : (s.pcs p).todo = some rest) :
    Refers s p (.scoring rest.expire) := by
  intro id hid
  left
  have hrest : id ∈ rest.map Prod.fst := by
    change id ∈ (rest.map fun ws => (ws.1, (none : Option ApprovalState))).map Prod.fst at hid
    rwa [List.map_map] at hid
  cases hpc : s.pcs p with
  | idle => rw [hpc] at h; cases h
  | scoring todo =>
    rw [hpc] at h
    obtain rfl := Option.some.inj h
    exact hrest
  | looking job rest' | closing job found seen rest' | raised job rest' =>
    rw [hpc] at h
    change (if job.purpose.human = true then none else some rest') = some rest at h
    split at h
    · cases h
    · obtain rfl := Option.some.inj h
      exact List.mem_cons_of_mem _ hrest

theorem ReviewStep.cases {s t : Review ι} {e : ReviewEvent ι}
    (h : ReviewStep s e t) : StepCase s e t := by
  unfold ReviewStep Next Review.next at h
  cases e with
  | add w =>
    dsimp only at h
    split at h
    · next hw => exact .added w hw.1 hw.2 rfl (Option.some.inj h).symm
    · cases h
  | load p rows =>
    dsimp only at h
    split at h
    · next hload =>
      refine .moved p _ (fun _ _ he => by cases he)
        (by rw [hload.1]; rfl) rfl ?_ (Option.some.inj h).symm
      intro id hid
      right
      change id ∈ (rows.map fun row => (row.1, some row.2)).map Prod.fst at hid
      rw [List.map_map] at hid
      obtain ⟨row, hrow, rfl⟩ := List.mem_map.mp hid
      exact candidates_known (hload.2.mem_iff.mp hrow)
    · cases h
  | pass p =>
    dsimp only at h
    split at h
    · next hpc =>
      exact .moved p _ (fun _ _ he => by cases he) (by rw [hpc]; rfl) rfl
        (refers_rest hpc) (Option.some.inj h).symm
    · cases h
  | verdict p pendingReview now =>
    dsimp only at h
    split at h
    · next hpc =>
      split at h
      · split at h
        · next purpose hjudge =>
          refine start_case h (fun _ _ he => by cases he) (by rw [hpc]; rfl)
            (fun action hdecide => ?_) fun id hid => ?_
          · have hscorer := judge_scorer hjudge
            rw [show purpose = .decide action from hdecide] at hscorer
            cases hscorer
          · left
            rw [hpc]
            exact hid
        · exact .moved p _ (fun _ _ he => by cases he) (by rw [hpc]; rfl) rfl
            (refers_rest hpc) (Option.some.inj h).symm
      · cases h
    · cases h
  | transition p id action now =>
    dsimp only at h
    split at h
    · next hguard =>
      refine start_case h (fun _ _ he => by cases he) (by rw [hguard.1]; rfl)
        (fun action' hdecide => ?_) fun id' hid => ?_
      · obtain rfl := Purpose.decide.inj hdecide
        exact hguard.2
      · right
        obtain rfl := List.mem_singleton.mp hid
        rw [hguard.2]
        rfl
    · cases h
  | look p =>
    dsimp only at h
    split at h
    · next job rest hpc =>
      rw [List.length_map] at h
      split at h
      · next hmany => exact .raised p job rest rfl hpc hmany.2 (Option.some.inj h).symm
      · next hone =>
        refine .looked p job rest rfl hpc ?_ (Option.some.inj h).symm
        by_cases hw : job.purpose = .withdraw
        · exact .inl hw
        · exact .inr (not_lt.mp fun hlt => hone ⟨hw, hlt⟩)
    · cases h
  | commit p now =>
    dsimp only at h
    split at h
    · next job found seen rest hpc =>
      exact .committed p now job found seen rest rfl hpc (Option.some.inj h).symm
    · cases h
  | rollback p =>
    dsimp only at h
    split at h
    · next rest htodo =>
      exact .ended p _ (fun _ _ he => by cases he) rfl
        (refers_expired htodo) (Option.some.inj h).symm
    · cases h
  | stop p =>
    refine .ended p .idle (fun _ _ he => by cases he) rfl ?_ (Option.some.inj h).symm
    intro id hid
    cases hid

theorem Review.pcs_goto (s : Review ι) (p q : ι) (pc : ReviewPc) :
    (s.goto p pc).pcs q = if q = p then pc else s.pcs q :=
  Function.update_apply s.pcs p pc q

end Polycopy
