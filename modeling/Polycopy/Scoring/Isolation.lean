import Polycopy.Ingestion.Bootstrap
import Polycopy.Lib.Keyed

/-!
# Scoring every wallet in one session

`score_all_wallets` of `scoring/service.py`, over any `bootstrap_wallet_history` and
`score_wallet`: such a call does something to the session and returns or raises.

* A statement begins a transaction, a commit ends it and expires nothing
  (`expire_on_commit=False`).
* A rollback of a begun transaction expires every loaded instance; one of no
  transaction does nothing.
* An expired instance cannot be read.

All wallets are loaded by the first `SELECT`, and the handler reads `wallet.address`
after its rollback.  So the loop goes through exactly where no transaction is begun when
a wallet fails; and the others do not notice the failing wallets if what these commit
leaves the rows the others work on (`isolated_when`).
-/

namespace Polycopy

variable {σ ρ α : Type}

/-! ## The session -/

/-- The database as committed and as the session sees it. -/
structure SharedSession (σ : Type) where
  committed : σ
  working : σ
  begun : Bool
  expired : Bool

inductive SessionOp (σ : Type)
  | statement (change : σ → σ)
  | commit

/-- What a call does before it returns, or raises (`none`). -/
structure SessionCall (σ ρ : Type) where
  ops : List (SessionOp σ)
  result : Option ρ

namespace SharedSession

def step (s : SharedSession σ) : SessionOp σ → SharedSession σ
  | .statement change => { s with working := change s.working, begun := true }
  | .commit => { s with committed := s.working, begun := false }

def run (s : SharedSession σ) (ops : List (SessionOp σ)) : SharedSession σ := ops.foldl step s

def rollback (s : SharedSession σ) : SharedSession σ :=
  if s.begun then { s with working := s.committed, begun := false, expired := true } else s

/-- An attribute of a loaded instance. -/
def read (s : SharedSession σ) (value : α) : Option α := if s.expired then none else some value

theorem run_expired (s : SharedSession σ) (ops : List (SessionOp σ)) :
    (s.run ops).expired = s.expired := by
  unfold run
  induction ops generalizing s with
  | nil => rfl
  | cons op ops ih =>
    rw [List.foldl_cons, ih]
    cases op <;> rfl

/-- Statements that keep to the rows of a view take one view to one view. -/
theorem run_view {τ : Type} {view : σ → τ} {ops : List (SessionOp σ)}
    (hops : ∀ change, .statement change ∈ ops → ∀ d d', view d = view d' →
      view (change d) = view (change d'))
    {s s' : SharedSession σ} (h : view s'.working = view s.working) :
    view (s'.run ops).working = view (s.run ops).working := by
  unfold run
  induction ops generalizing s s' with
  | nil => exact h
  | cons op ops ih =>
    refine ih (fun change hc => hops change (List.mem_cons_of_mem _ hc)) ?_
    cases op with
    | statement change => exact hops change List.mem_cons_self _ _ h
    | commit => exact h

theorem rollback_of_closed {s : SharedSession σ} (h : s.begun = false) : s.rollback = s := by
  unfold rollback
  rw [h]
  rfl

theorem rollback_expired {s : SharedSession σ} (h : s.begun = true) :
    s.rollback.expired = true := by
  unfold rollback
  rw [h]
  rfl

theorem read_fresh {s : SharedSession σ} (h : s.expired = false) (value : α) :
    s.read value = some value := by
  unfold read
  rw [h]
  rfl

end SharedSession

/-! ## The loop -/

def Verdict.text : Verdict → String
  | .pendingReview => "pending_review"
  | .discovered => "discovered"
  | .scoreRejected => "score_rejected"
  | .insufficientHistory => "insufficient_history"

structure WalletCalls (σ : Type) where
  bootstrapWalletHistory : Wallet → σ → SessionCall σ BootstrapRecord
  scoreWallet : Wallet → σ → SessionCall σ ScoreResult

/-- What the `try` block does for one wallet. -/
structure Visit (σ : Type) where
  wallet : Wallet
  bootstrap : SessionCall σ BootstrapRecord
  score : Option (SessionCall σ ScoreResult)

namespace Visit

def ops (v : Visit σ) : List (SessionOp σ) :=
  v.bootstrap.ops ++ (v.score.map SessionCall.ops).getD []

/-- The verdict recorded, unless the block raises. -/
def verdict (v : Visit σ) : Option String :=
  match v.score with
  | some score => score.result.map fun result => result.verdict.text
  | none => v.bootstrap.result.map fun _ => "insufficient_history"

def fails (v : Visit σ) : Bool := v.verdict.isNone

/-- The wallet's entry in the results. -/
def entry (v : Visit σ) : String × String := (v.wallet.address, v.verdict.getD "error")

end Visit

/-- A page that failed, or is yet to come, leaves the wallet without a score. -/
def scoreable (bootstrap : BootstrapRecord) : Bool :=
  bootstrap.terminationReason ≠ .upstreamError && bootstrap.terminationReason ≠ .inProgress

def visit (calls : WalletCalls σ) (s : SharedSession σ) (wallet : Wallet) : Visit σ :=
  let bootstrap := calls.bootstrapWalletHistory wallet s.working
  { wallet := wallet
    bootstrap := bootstrap
    score := if bootstrap.result.any scoreable then
      some (calls.scoreWallet wallet (s.run bootstrap.ops).working) else none }

/-- The results so far, what was done for them, and the session. -/
structure Scored (σ : Type) where
  results : List (String × String)
  visits : List (Visit σ)
  session : SharedSession σ

def Scored.add (r : Scored σ) (v : Visit σ) (address verdict : String)
    (s : SharedSession σ) : Scored σ where
  results := Keyed.put Prod.fst (address, verdict) r.results
  visits := r.visits ++ [v]
  session := s

/-- The `for`; `none` where an exception leaves it. -/
def scoreEach (calls : WalletCalls σ) : List Wallet → Scored σ → Option (Scored σ)
  | [], r => some r
  | wallet :: wallets, r =>
    let v := visit calls r.session wallet
    let s := r.session.run v.ops
    match v.verdict.bind fun verdict => (s.read wallet.address).map fun address => (address, verdict) with
    | some (address, verdict) => scoreEach calls wallets (r.add v address verdict s)
    | none => do
      -- the logger reads the address before the rollback, the entry after it
      let _ ← s.read wallet.address
      let address ← s.rollback.read wallet.address
      scoreEach calls wallets (r.add v address "error" s.rollback)

def candidate (w : Wallet) : Bool :=
  w.approvalState = .discovered || w.approvalState = .pendingReview

/-- The `SELECT` of the wallets has begun a transaction. -/
def SharedSession.selected (db : σ) : SharedSession σ := ⟨db, db, true, false⟩

def scoreAllWallets (calls : WalletCalls σ) (wallets : List Wallet) (db : σ) : Option (Scored σ) :=
  scoreEach calls (wallets.filter candidate) ⟨[], [], .selected db⟩

/-! ## Isolation -/

/-- One entry for each wallet, and the same done for the others as in a run
without the failing ones. -/
structure Scored.Isolates (calls : WalletCalls σ) (wallets : List Wallet)
    (db : σ) (r : Scored σ) : Prop where
  each : r.visits.map Visit.wallet = wallets.filter candidate
  results : r.results = r.visits.map Visit.entry
  others : ∃ r', scoreAllWallets calls
    ((r.visits.filter fun v => !v.fails).map Visit.wallet) db = some r' ∧
    r'.visits = r.visits.filter fun v => !v.fails

/-- It returns, and isolates the failures. -/
def Isolated (calls : WalletCalls σ) (wallets : List Wallet) (db : σ) : Prop :=
  ∃ r, scoreAllWallets calls wallets db = some r ∧ r.Isolates calls wallets db

/-- The session a wallet leaves to the next one. -/
def SharedSession.visited (s : SharedSession σ) (v : Visit σ) : SharedSession σ :=
  if v.fails then (s.run v.ops).rollback else s.run v.ops

/-- The visits of a loop nothing stops, each with the session when it returns or raises. -/
def visits (calls : WalletCalls σ) : List Wallet → SharedSession σ →
    List (Visit σ × SharedSession σ)
  | [], _ => []
  | wallet :: wallets, s =>
    let v := visit calls s wallet
    (v, s.run v.ops) :: visits calls wallets (s.visited v)

/-- The visits that do not fail. -/
def others (calls : WalletCalls σ) (wallets : List Wallet) (s : SharedSession σ) : List (Visit σ) :=
  ((visits calls wallets s).map Prod.fst).filter fun v => !v.fails

/-- A wallet that fails has no transaction begun when it does. -/
def FailsClosed (calls : WalletCalls σ) (wallets : List Wallet) (s : SharedSession σ) : Prop :=
  ∀ x ∈ visits calls wallets s, x.1.fails = true → x.2.begun = false

/-- The other wallets' calls do the same from what the failing ones have left (`s`)
as without it (`s'`). -/
def Unseen (calls : WalletCalls σ) : List Wallet → SharedSession σ → SharedSession σ → Prop
  | [], _, _ => True
  | wallet :: wallets, s, s' =>
    let v := visit calls s wallet
    if v.fails then Unseen calls wallets (s.visited v) s'
    else visit calls s' wallet = v ∧ Unseen calls wallets (s.visited v) (s'.visited v)

/-- It returns, with one entry for each wallet. -/
def Reports (calls : WalletCalls σ) (wallets : List Wallet) (db : σ) : Prop :=
  ∃ r, scoreAllWallets calls wallets db = some r ∧
    r.visits.map Visit.wallet = wallets.filter candidate ∧
    r.results = r.visits.map Visit.entry

/-- `view` has the rows the calls of a wallet work on: where it is the same they do the
same, to the same rows. -/
structure WorksOn {τ : Type} (calls : WalletCalls σ) (view : σ → τ) (wallet : Wallet) : Prop where
  bootstrap : ∀ db db', view db = view db' →
    calls.bootstrapWalletHistory wallet db = calls.bootstrapWalletHistory wallet db'
  score : ∀ db db', view db = view db' → calls.scoreWallet wallet db = calls.scoreWallet wallet db'
  changes : ∀ db change, .statement change ∈ (calls.bootstrapWalletHistory wallet db).ops ∨
    .statement change ∈ (calls.scoreWallet wallet db).ops → ∀ d d', view d = view d' →
    view (change d) = view (change d')

/-- A failing wallet leaves the rows of `view` as it found them, and the others work
on no more than these. -/
def Spared {τ : Type} (calls : WalletCalls σ) (view : σ → τ) : List Wallet → SharedSession σ → Prop
  | [], _ => True
  | wallet :: wallets, s =>
    let v := visit calls s wallet
    (if v.fails then view (s.run v.ops).working = view s.working else WorksOn calls view wallet) ∧
      Spared calls view wallets (s.visited v)

section

variable {calls : WalletCalls σ}

theorem visits_wallets (wallets : List Wallet) (s : SharedSession σ) :
    ((visits calls wallets s).map Prod.fst).map Visit.wallet = wallets := by
  induction wallets generalizing s with
  | nil => rfl
  | cons wallet wallets ih => exact congrArg (wallet :: ·) (ih _)

/-- One wallet of the loop, the session not expired. -/
theorem scoreEach_cons (wallet : Wallet) (wallets : List Wallet) {r : Scored σ}
    (hfresh : r.session.expired = false) :
    let v := visit calls r.session wallet
    let s := r.session.run v.ops
    scoreEach calls (wallet :: wallets) r =
      if v.fails then
        if s.begun then none else scoreEach calls wallets (r.add v wallet.address "error" s)
      else scoreEach calls wallets (r.add v wallet.address (v.verdict.getD "error") s) := by
  intro v s
  have hs : s.expired = false := (SharedSession.run_expired _ _).trans hfresh
  cases hv : v.verdict with
  | some verdict =>
    have hfails : v.fails = false := by rw [Visit.fails, hv]; rfl
    rw [hfails, if_neg Bool.false_ne_true]
    show (match v.verdict.bind fun verdict =>
        (s.read wallet.address).map fun address => (address, verdict) with
      | some (address, verdict) => scoreEach calls wallets (r.add v address verdict s)
      | none => _) = _
    rw [hv, SharedSession.read_fresh hs]
    rfl
  | none =>
    have hfails : v.fails = true := by rw [Visit.fails, hv]; rfl
    rw [if_pos hfails]
    show (match v.verdict.bind fun verdict =>
        (s.read wallet.address).map fun address => (address, verdict) with
      | some (address, verdict) => _
      | none =>
        (s.read wallet.address).bind fun _ => (s.rollback.read wallet.address).bind fun address =>
        scoreEach calls wallets (r.add v address "error" s.rollback)) = _
    rw [hv, SharedSession.read_fresh hs]
    cases hbegun : s.begun with
    | true =>
      unfold SharedSession.read
      rw [SharedSession.rollback_expired hbegun]
      rfl
    | false =>
      rw [SharedSession.rollback_of_closed hbegun, SharedSession.read_fresh hs]
      rfl

theorem failsClosed_cons {wallet : Wallet} {wallets : List Wallet} {s : SharedSession σ} :
    FailsClosed calls (wallet :: wallets) s ↔
      ((visit calls s wallet).fails = true → (s.run (visit calls s wallet).ops).begun = false) ∧
        FailsClosed calls wallets (s.visited (visit calls s wallet)) :=
  List.forall_mem_cons

/-- A rollback of no transaction leaves nothing to tell a failed wallet by. -/
theorem visited_closed {s : SharedSession σ} {v : Visit σ}
    (h : v.fails = true → (s.run v.ops).begun = false) :
    s.visited v = s.run v.ops := by
  unfold SharedSession.visited
  split
  · next hfails => exact SharedSession.rollback_of_closed (h hfails)
  · rfl

theorem closed_of_scoreEach {wallets : List Wallet} :
    ∀ {r r' : Scored σ}, r.session.expired = false →
    scoreEach calls wallets r = some r' → FailsClosed calls wallets r.session := by
  induction wallets with
  | nil => exact fun _ _ _ hx => (List.not_mem_nil hx).elim
  | cons wallet wallets ih =>
    intro r r' hfresh h
    have hexpired : (r.session.run (visit calls r.session wallet).ops).expired = false :=
      (SharedSession.run_expired _ _).trans hfresh
    rw [scoreEach_cons wallet wallets hfresh] at h
    rw [failsClosed_cons]
    split at h
    · split at h
      · cases h
      · next hbegun =>
        rw [Bool.not_eq_true] at hbegun
        rw [visited_closed fun _ => hbegun]
        exact ⟨fun _ => hbegun, ih hexpired h⟩
    · next hfails =>
      rw [visited_closed fun h => absurd h hfails]
      exact ⟨fun h => absurd h hfails, ih hexpired h⟩

/-- A loop whose failures come with no transaction begun goes through. -/
theorem scoreEach_closed {wallets : List Wallet} : ∀ {r : Scored σ}, r.session.expired = false →
    (r.results.map Prod.fst ++ wallets.map Wallet.address).Nodup →
    FailsClosed calls wallets r.session →
    ∃ r', scoreEach calls wallets r = some r' ∧
      r'.visits = r.visits ++ (visits calls wallets r.session).map Prod.fst ∧
      r'.results = r.results ++ ((visits calls wallets r.session).map Prod.fst).map Visit.entry := by
  induction wallets with
  | nil => exact fun {r} _ _ _ => ⟨r, rfl, (List.append_nil _).symm, (List.append_nil _).symm⟩
  | cons wallet wallets ih =>
    intro r hfresh hnodup hclosed
    rw [failsClosed_cons] at hclosed
    rw [scoreEach_cons wallet wallets hfresh]
    have hsession := visited_closed hclosed.1
    rw [hsession] at hclosed
    have hput : ∀ verdict, Keyed.put Prod.fst (wallet.address, verdict) r.results =
        r.results ++ [(wallet.address, verdict)] := by
      intro verdict
      refine Keyed.put_of_none Prod.fst ((Keyed.find_none Prod.fst).mpr fun entry hentry hsame => ?_)
      exact List.disjoint_of_nodup_append hnodup (List.mem_map_of_mem hentry)
        (hsame ▸ List.mem_cons_self)
    have hrest : ∀ verdict, verdict = (visit calls r.session wallet).verdict.getD "error" →
        ∃ r', scoreEach calls wallets (r.add (visit calls r.session wallet) wallet.address verdict
            (r.session.run (visit calls r.session wallet).ops)) = some r' ∧
          r'.visits = r.visits ++ (visits calls (wallet :: wallets) r.session).map Prod.fst ∧
          r'.results = r.results ++
            ((visits calls (wallet :: wallets) r.session).map Prod.fst).map Visit.entry := by
      intro verdict hverdict
      obtain ⟨r', hr', hvisits, hresults⟩ := ih
        (r := r.add (visit calls r.session wallet) wallet.address verdict
          (r.session.run (visit calls r.session wallet).ops))
        ((SharedSession.run_expired _ _).trans hfresh)
        (by
          show ((Keyed.put Prod.fst _ r.results).map Prod.fst ++ _).Nodup
          rw [hput, List.map_append, List.append_assoc]
          exact hnodup)
        hclosed.2
      refine ⟨r', hr', ?_, ?_⟩
      · rw [hvisits, visits, hsession]
        exact List.append_assoc _ _ _
      · rw [hresults, visits, hsession]
        show Keyed.put Prod.fst (wallet.address, verdict) r.results ++ _ = _
        rw [hput, hverdict]
        exact List.append_assoc _ _ _
    split
    · next hfails =>
      rw [hclosed.1 hfails, if_neg Bool.false_ne_true]
      have herror : (visit calls r.session wallet).verdict = none :=
        Option.isNone_iff_eq_none.mp hfails
      exact hrest "error" (by rw [herror]; rfl)
    · exact hrest _ rfl

theorem unseen_iff {wallets : List Wallet} : ∀ {s s' : SharedSession σ}, Unseen calls wallets s s' ↔
    (visits calls ((others calls wallets s).map Visit.wallet) s').map Prod.fst =
      others calls wallets s := by
  induction wallets with
  | nil => exact fun {s s'} => iff_of_true trivial rfl
  | cons wallet wallets ih =>
    intro s s'
    unfold others at ih ⊢
    rw [visits, List.map_cons, List.filter_cons]
    unfold Unseen
    dsimp only
    cases hfails : (visit calls s wallet).fails with
    | true => exact ih
    | false =>
      show visit calls s' wallet = visit calls s wallet ∧ _ ↔
        visit calls s' wallet :: _ = visit calls s wallet :: _
      rw [List.cons.injEq]
      refine and_congr_right fun hsame => ?_
      rw [show (visit calls s wallet).wallet = wallet from rfl, hsame]
      exact ih

/-- What the loop has done, if it goes through. -/
theorem scoreAllWallets_visits {wallets : List Wallet} {db : σ}
    (hnodup : (wallets.map Wallet.address).Nodup)
    (hclosed : FailsClosed calls (wallets.filter candidate) (.selected db)) :
    ∃ r, scoreAllWallets calls wallets db = some r ∧
      r.visits = (visits calls (wallets.filter candidate) (.selected db)).map Prod.fst ∧
      r.results = r.visits.map Visit.entry := by
  obtain ⟨r, hr, hvisits, hresults⟩ := scoreEach_closed (r := ⟨[], [], .selected db⟩) rfl
    (hnodup.sublist (List.filter_sublist.map Wallet.address)) hclosed
  refine ⟨r, hr, hvisits, hresults.trans ?_⟩
  rw [hvisits]
  rfl

theorem others_sublist (wallets : List Wallet) (s : SharedSession σ) :
    ((others calls wallets s).map Visit.wallet).Sublist wallets := by
  have hsub := (List.filter_sublist (l := (visits calls wallets s).map Prod.fst)
    (p := fun v => !v.fails)).map Visit.wallet
  rwa [visits_wallets] at hsub

theorem filter_others (wallets : List Wallet) (s : SharedSession σ) :
    ((others calls (wallets.filter candidate) s).map Visit.wallet).filter candidate =
      (others calls (wallets.filter candidate) s).map Visit.wallet := by
  rw [List.filter_eq_self]
  intro w hw
  exact (List.mem_filter.mp ((others_sublist _ _).subset hw)).2

/-- The loop goes through, and the others' calls do the same with the failing wallets as without. -/
theorem isolated_unseen {wallets : List Wallet} {db : σ}
    (hnodup : (wallets.map Wallet.address).Nodup) :
    Isolated calls wallets db ↔ FailsClosed calls (wallets.filter candidate) (.selected db) ∧
      Unseen calls (wallets.filter candidate) (.selected db) (.selected db) := by
  have hothers : ((others calls (wallets.filter candidate) (.selected db)).map Visit.wallet).map
      Wallet.address |>.Nodup :=
    hnodup.sublist ((((others_sublist _ _).trans List.filter_sublist)).map Wallet.address)
  constructor
  · rintro ⟨r, hr, -, -, r', hr', hsame⟩
    have hclosed : FailsClosed calls (wallets.filter candidate) (.selected db) :=
    closed_of_scoreEach rfl hr
    obtain ⟨r₁, hr₁, hvisits, -⟩ := scoreAllWallets_visits hnodup hclosed
    obtain rfl := Option.some.inj (hr.symm.trans hr₁)
    rw [hvisits] at hr' hsame
    obtain ⟨r₁', hr₁', hvisits', -⟩ := scoreAllWallets_visits hothers (closed_of_scoreEach rfl hr')
    obtain rfl := Option.some.inj (hr'.symm.trans hr₁')
    rw [filter_others] at hvisits'
    exact ⟨hclosed, unseen_iff.mpr (hvisits'.symm.trans hsame)⟩
  · rintro ⟨hclosed, hunseen⟩
    have halone := unseen_iff.mp hunseen
    have hsucceed : FailsClosed calls
        (((others calls (wallets.filter candidate) (.selected db)).map Visit.wallet).filter
        candidate) (.selected db) := by
      rw [filter_others]
      intro x hx hfails
      have hmem := List.mem_map_of_mem (f := Prod.fst) hx
      rw [halone] at hmem
      have hok := (List.mem_filter.mp hmem).2
      rw [hfails] at hok
      cases hok
    obtain ⟨r, hr, hvisits, hresults⟩ := scoreAllWallets_visits hnodup hclosed
    obtain ⟨r', hr', hvisits', -⟩ := scoreAllWallets_visits hothers hsucceed
    rw [filter_others] at hvisits'
    refine ⟨r, hr, ?_, hresults, r', ?_, ?_⟩
    · rw [hvisits, visits_wallets]
    · rw [hvisits]
      exact hr'
    · rw [hvisits]
      exact hvisits'.trans halone

theorem WorksOn.visit_congr {τ : Type} {view : σ → τ} {wallet : Wallet}
    (hw : WorksOn calls view wallet) {s s' : SharedSession σ}
    (h : view s'.working = view s.working) :
    visit calls s' wallet = visit calls s wallet ∧
      view (s'.run (visit calls s wallet).ops).working =
        view (s.run (visit calls s wallet).ops).working := by
  have hbootstrap := hw.bootstrap _ _ h
  have hrun := SharedSession.run_view (fun change hc => hw.changes s.working change (.inl hc)) h
  have hsame : visit calls s' wallet = visit calls s wallet := by
    unfold visit
    dsimp only
    rw [hbootstrap, hw.score _ _ hrun]
  refine ⟨hsame, SharedSession.run_view (fun change hc => ?_) h⟩
  unfold Visit.ops visit at hc
  rcases List.mem_append.mp hc with hc | hc
  · exact hw.changes s.working change (.inl hc)
  · dsimp only at hc
    split at hc
    · exact hw.changes _ change (.inr hc)
    · exact (List.not_mem_nil hc).elim

/-- What is spared is not seen. -/
theorem unseen_of_spared {τ : Type} {view : σ → τ} {wallets : List Wallet} :
    ∀ {s s' : SharedSession σ},
    view s'.working = view s.working → FailsClosed calls wallets s → Spared calls view wallets s →
    Unseen calls wallets s s' := by
  induction wallets with
  | nil => exact fun _ _ _ => trivial
  | cons wallet wallets ih =>
    intro s s' hsame hclosed hspared
    rw [failsClosed_cons] at hclosed
    have hsession := visited_closed hclosed.1
    unfold Spared at hspared
    unfold Unseen
    dsimp only at hspared ⊢
    rw [hsession] at hclosed hspared ⊢
    obtain ⟨hthis, hrest⟩ := hspared
    split
    · next hfails =>
      rw [if_pos hfails] at hthis
      exact ih (hsame.trans hthis.symm) hclosed.2 hrest
    · next hfails =>
      rw [if_neg hfails] at hthis
      obtain ⟨hvisit, hview⟩ := hthis.visit_congr hsame
      refine ⟨hvisit, ?_⟩
      rw [visited_closed fun h => absurd h hfails]
      exact ih hview hclosed.2 hrest

/-- `score_all_wallets` returns with an entry for each wallet exactly where a wallet that fails has
no transaction begun when it does; and there the others are bootstrapped and scored as without the
failing wallets, if what these have committed spares the rows the others work on. -/
theorem isolated_when {τ : Type} (view : σ → τ) {wallets : List Wallet} {db : σ}
    (hnodup : (wallets.map Wallet.address).Nodup) :
    (Reports calls wallets db ↔ FailsClosed calls (wallets.filter candidate) (.selected db)) ∧
      (Isolated calls wallets db → FailsClosed calls (wallets.filter candidate) (.selected db)) ∧
      (FailsClosed calls (wallets.filter candidate) (.selected db) →
        Spared calls view (wallets.filter candidate) (.selected db) →
        Isolated calls wallets db) := by
  refine ⟨⟨?_, fun hclosed => ?_⟩, ?_, fun hclosed hspared => ?_⟩
  · rintro ⟨r, hr, -⟩
    exact closed_of_scoreEach rfl hr
  · obtain ⟨r, hr, hvisits, hresults⟩ := scoreAllWallets_visits hnodup hclosed
    exact ⟨r, hr, by rw [hvisits, visits_wallets], hresults⟩
  · exact fun h => ((isolated_unseen hnodup).mp h).1
  · exact (isolated_unseen hnodup).mpr ⟨hclosed, unseen_of_spared rfl hclosed hspared⟩

/-- Calls of which a failing one does `ops`, and the others commit only where the
database is not `db`. -/
def lookout [DecidableEq σ] (db : σ) (failing : Wallet)
    (ops : List (SessionOp σ)) : WalletCalls σ where
  bootstrapWalletHistory wallet db' :=
    if wallet.address = failing.address then ⟨ops, none⟩
    else ⟨if db' = db then [] else [.commit], some (maturedRecord wallet 0 ⟨30, 15, none, none⟩)⟩
  scoreWallet _ _ := ⟨[], some { eligible := true, verdict := .pendingReview }⟩

/-- A change that a failing wallet has committed can be seen, by calls that look for it. -/
theorem commit_seen [DecidableEq σ] {db : σ} {failing other : Wallet}
    (hfailing : candidate failing = true) (hother : candidate other = true)
    (hne : failing.address ≠ other.address) {ops : List (SessionOp σ)}
    (hclosed : ((SharedSession.selected db).run ops).begun = false)
    (hchange : ((SharedSession.selected db).run ops).working ≠ db) :
    FailsClosed (lookout db failing ops) [failing, other] (.selected db) ∧
      ¬ Isolated (lookout db failing ops) [failing, other] db := by
  have hfirst : ∀ db', (lookout db failing ops).bootstrapWalletHistory failing db' = ⟨ops, none⟩ :=
    fun _ => if_pos rfl
  have hsecond : ∀ db', (lookout db failing ops).bootstrapWalletHistory other db' =
      ⟨if db' = db then [] else [.commit], some (maturedRecord other 0 ⟨30, 15, none, none⟩)⟩ :=
    fun _ => if_neg hne.symm
  have hvisit : visit (lookout db failing ops) (.selected db) failing =
      ⟨failing, ⟨ops, none⟩, none⟩ := by
    unfold visit
    rw [hfirst]
    rfl
  have hfails : (visit (lookout db failing ops) (.selected db) failing).fails = true := by
    rw [hvisit]; rfl
  have hops : (visit (lookout db failing ops) (.selected db) failing).ops = ops := by
    rw [hvisit]
    exact List.append_nil ops
  have hsession :=
    visited_closed (s := .selected db) (v := visit (lookout db failing ops) (.selected db) failing)
    fun _ => by rw [hops]; exact hclosed
  rw [hops] at hsession
  have hgoes : ∀ s : SharedSession σ, (visit (lookout db failing ops) s other).fails = false := by
    intro s
    unfold visit
    rw [hsecond]
    rfl
  refine ⟨?_, fun hisolated => ?_⟩
  · rw [failsClosed_cons, failsClosed_cons, hops, hgoes]
    exact ⟨fun _ => hclosed, fun h => absurd h Bool.false_ne_true,
      fun _ hx => (List.not_mem_nil hx).elim⟩
  · have hnodup : ([failing, other].map Wallet.address).Nodup := by simpa using hne
    have hunseen := ((isolated_unseen hnodup).mp hisolated).2
    rw [List.filter_cons_of_pos hfailing, List.filter_cons_of_pos hother, List.filter_nil] at hunseen
    unfold Unseen at hunseen
    dsimp only at hunseen
    rw [if_pos hfails, hsession] at hunseen
    unfold Unseen at hunseen
    dsimp only at hunseen
    rw [hgoes, if_neg Bool.false_ne_true] at hunseen
    have hbootstrap := congrArg (fun v => v.bootstrap.ops) hunseen.1
    unfold visit at hbootstrap
    dsimp only at hbootstrap
    rw [hsecond, hsecond] at hbootstrap
    dsimp only at hbootstrap
    rw [if_neg hchange] at hbootstrap
    cases (if_pos rfl).symm.trans hbootstrap

end

/-! ## Two wallets, of which the second fails -/

namespace Isolation

def first : Wallet := ⟨1, "0xstrong", .discovered, none⟩

def second : Wallet := ⟨2, "0xstrong2", .discovered, none⟩

/-- The database counts what is written; the bootstrap of the second wallet raises after `ops`. -/
def calls (ops : List (SessionOp Nat)) : WalletCalls Nat where
  bootstrapWalletHistory wallet _ :=
    if wallet.id = second.id then ⟨ops, none⟩
    else ⟨[.statement id, .statement (· + 1), .commit],
      some (maturedRecord wallet 0 ⟨30, 15, none, none⟩)⟩
  scoreWallet _ _ :=
    ⟨[.statement (· + 1), .commit], some { eligible := true, verdict := .pendingReview }⟩

end Isolation

/-- After its first query. -/
theorem not_isolated_query :
    ¬ Isolated (Isolation.calls [.statement id]) [Isolation.first, Isolation.second] 0 := by
  rintro ⟨r, hr, -⟩
  have hraises : scoreAllWallets (Isolation.calls [.statement id]) [Isolation.first,
    Isolation.second] 0 = none := rfl
  rw [hraises] at hr
  cases hr

/-- Before its first query. -/
theorem isolated_when_unopened :
    Isolated (Isolation.calls []) [Isolation.first, Isolation.second] 0 := by
  have hclosed : FailsClosed (Isolation.calls [])
      ([Isolation.first, Isolation.second].filter candidate)
      (.selected 0) := by
    intro x hx
    have hvisits : ∀ x ∈ visits (Isolation.calls []) [Isolation.first,
        Isolation.second] (.selected 0),
        x.2.begun = false := by decide +kernel
    exact fun _ => hvisits x hx
  have hworks : WorksOn (Isolation.calls []) (id : Nat → Nat) Isolation.first :=
    ⟨fun db db' h => congrArg _ h, fun db db' h => congrArg _ h,
      fun _ change _ d d' h => congrArg change h⟩
  refine (isolated_when id (by decide +kernel)).2.2 hclosed ⟨hworks, ?_, trivial⟩
  rfl

end Polycopy
