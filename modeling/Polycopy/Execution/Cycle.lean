import Polycopy.Execution.Frame

/-!
# One failing signal and the others of its cycle

The loop of `run_execution_cycle` over `pending_ids`, its last commit and the
sweep.  A cycle over all the signals is compared with one over a database without
some that fail.  Everything but the deferral counts always agrees; the counts
agree unless a failure rolls back a count that waits for its commit.
-/

namespace Polycopy

open Py

/-! ## The loop -/

/-- The session, whether `stats["deferred"]` is positive, and the signals whose call raised. -/
structure CycleState where
  progress : Progress
  deferred : Bool
  errors : List Nat

/-- What the loop does with the outcome of a call. -/
def CycleState.record (st : CycleState) (id : Nat) : Outcome × Progress → CycleState
  | (.error, p) => { st with progress := p, errors := st.errors ++ [id] }
  | (.deferred, p) => { st with progress := p, deferred := true }
  | (_, p) => { st with progress := p }

/-- One turn; none is the `break` inside the review delay. -/
def turn (pw : DecPow) (cfg : Settings) (calls : Nat → Call) (st : CycleState)
    (id : Nat) : Option CycleState :=
  match st.progress.view.signal id with
  | none => some st
  | some s =>
    if s.status ≠ .pending then some st
    else if (calls id).now < eligibleAt cfg s ∧ cfg.orderKillSwitch = false then none
    else some (st.record id (attempt pw cfg (calls id) st.progress s))

def cycleLoop (pw : DecPow) (cfg : Settings) (calls : Nat → Call) :
    List Nat → CycleState → CycleState
  | [], st => st
  | id :: rest, st => match turn pw cfg calls st id with
    | none => st
    | some st => cycleLoop pw cfg calls rest st

/-- The loop from a fresh session, over the `pending_ids` of the cycle: what the query of the batch,
with its `LIMIT execution_batch_size`, returns is taken as given. -/
def runCycle (pw : DecPow) (cfg : Settings) (calls : Nat → Call)
    (ids : List Nat) (db : Db) : CycleState :=
  cycleLoop pw cfg calls ids ⟨⟨db, []⟩, false, []⟩

/-- `if stats["deferred"]: await session.commit()`. -/
def CycleState.flush (st : CycleState) : Progress :=
  if st.deferred then committed st.progress.view else st.progress

/-- What the cycle leaves in the database: the last commit of the batch, and the sweep's own. -/
def CycleState.persisted (cfg : Settings) (st : CycleState) : Db :=
  if 0 < (sweepProfitIfDue cfg st.flush.view).2 then (sweepProfitIfDue cfg st.flush.view).1
  else st.flush.db

/-! ## Nothing but its own row of the signals -/

/-- The result over another signal table. -/
def Executed.onSignals (cfg : Settings) (s : Signal) (signals : List Signal) : Executed → Executed
  | .raised => .raised
  | .deferred db => .deferred { db with
      signals := if cfg.orderKillSwitch then bumpDeferrals s.id signals else signals }
  | .skipped reason db => .skipped reason { db with signals := setStatus .skipped s.id signals }
  | .filled db => .filled { db with signals := setStatus .executed s.id signals }

theorem getOrCreate_signals (cfg : Settings) (db : Db) (signals : List Signal) :
    getOrCreateBankrollAccount cfg { db with signals := signals } =
      ((getOrCreateBankrollAccount cfg db).1,
        { (getOrCreateBankrollAccount cfg db).2 with signals := signals }) := by
  rw [getOrCreate_withAccount, getOrCreate_withAccount]
  rfl

theorem sideGates_signals (cfg : Settings) (db : Db) (s : Signal) (signals : List Signal) :
    sideGates cfg { db with signals := signals } s =
      ({ (sideGates cfg db s).1 with signals := signals }, (sideGates cfg db s).2) := by
  unfold sideGates
  cases hs : s.side with
  | sell =>
    dsimp only
    rw [show ownedShares { db with signals := signals } s = ownedShares db s from rfl]
    split <;> rfl
  | other text => rfl
  | buy =>
    dsimp only
    rw [show globalExposure { db with signals := signals } = globalExposure db from rfl,
      show marketExposure { db with signals := signals } s.marketId =
        marketExposure db s.marketId from rfl]
    split
    · rfl
    · rw [getOrCreate_signals]
      dsimp only
      split
      · rfl
      · split <;> rfl

/-- The rows the gates leave. -/
def gateSignals (cfg : Settings) (s : Signal) (signals : List Signal) : Gates → List Signal
  | .deferred => if cfg.orderKillSwitch then bumpDeferrals s.id signals else signals
  | _ => signals

theorem executeGates_signals (cfg : Settings) (now : Time) (db : Db)
    (s : Signal) (signals : List Signal) :
    executeGates cfg now { db with signals := signals } s =
      ({ (executeGates cfg now db s).1 with
        signals := gateSignals cfg s signals (executeGates cfg now db s).2 },
        (executeGates cfg now db s).2) := by
  unfold executeGates
  rw [sideGates_signals, show ({ db with signals := signals } : Db).wallet s.walletId =
    db.wallet s.walletId from rfl,
    show ({ db with signals := signals } : Db).market s.marketId = db.market s.marketId from rfl]
  unfold gateSignals
  split
  · rfl
  split
  · rfl
  split
  · rfl
  split
  · rfl
  split
  · rfl
  split
  · rfl
  split
  · rfl
  split
  · rfl
  obtain ⟨db', side⟩ := sideGates cfg db s
  cases side <;> rfl

theorem positionFor_signals (db : Db) (s : Signal) (signals : List Signal) :
    positionFor { db with signals := signals } s = positionFor db s := rfl

theorem postFill_signals (cfg : Settings) (db : Db) (s : Signal)
    (signals : List Signal) (delta : Option ℚ) :
    postFill cfg { db with signals := signals } s delta =
      { postFill cfg db s delta with signals := signals } := by
  cases delta with
  | none => rfl
  | some d =>
    unfold postFill
    dsimp only
    by_cases h : d = 0
    · rw [h, postRealizedPnl_zero, postRealizedPnl_zero]
    · rw [postRealizedPnl_eq cfg db d _ h, postRealizedPnl_eq cfg _ d _ h]
      rfl

theorem commitFill_signals (cfg : Settings) (db : Db) (s : Signal)
    (signals : List Signal) (now retrievedAt : Time) (fill : Fill) (snapshot : BookSnapshot)
    (fee : ℚ) (marketFee : MarketFee) :
    commitFill cfg { db with signals := signals } s now retrievedAt fill snapshot fee marketFee =
      { commitFill cfg db s now retrievedAt fill snapshot fee marketFee with
        signals := setStatus .executed s.id signals } := by
  rw [commitFill_eq, commitFill_eq, positionFor_signals, postFill_signals]
  rfl

/-- The call reads its signal from its argument only, and writes that row only. -/
theorem executeSignal_signals (pw : DecPow) (cfg : Settings)
    (now retrievedAt : Time) (db : Db) (s : Signal) (book feeInfo : String → Except Exc Json)
    (signals : List Signal) :
    executeSignal pw cfg now retrievedAt { db with signals := signals } s book feeInfo =
      (executeSignal pw cfg now retrievedAt db s book feeInfo).onSignals cfg s signals := by
  unfold executeSignal
  rw [executeGates_signals]
  obtain ⟨db', gates⟩ := executeGates cfg now db s
  cases gates with
  | raised | deferred | skip reason => rfl
  | request plan =>
    dsimp only
    cases (book plan.tokenId).bind (afterBook cfg s plan) with
    | error e => rfl
    | ok outcome =>
      cases outcome with
      | skip reason evidence => rfl
      | fill fill snapshot =>
        dsimp only
        cases (feeInfo plan.conditionId).bind (afterFee pw cfg plan fill) with
        | error e => rfl
        | ok outcome =>
          cases outcome with
          | skip reason => rfl
          | fill fee marketFee =>
            exact congrArg Executed.filled
              (commitFill_signals cfg db' s signals now retrievedAt fill snapshot fee marketFee)

/-! ## What a call leaves -/

/-- What the loop needs of a call: an error rolls back, a deferral waits, an
outcome is committed. -/
inductive AttemptCase (cfg : Settings) (call : Call) (p : Progress)
    (s : Signal) : Outcome × Progress → Prop
  | error : AttemptCase cfg call p s (.error, p.rollback)
  | deferred : AttemptCase cfg call p s (.deferred, p.defer cfg s)
  | recorded (outcome : Outcome) (status : SignalStatus) (o : PaperOrder) (after : Db)
      (done : outcome = .missed ∨ outcome = .filled) (key : o.idempotencyKey = idempotencyKey s)
      (signals : after.signals = setStatus status s.id p.view.signals)
      (orders : after.paperOrders = p.db.paperOrders ++ [o]) (accepted : refused call p s = false) :
      AttemptCase cfg call p s (outcome, committed after)

theorem attempt_case (pw : DecPow) (cfg : Settings) (call : Call) (p : Progress) (s : Signal) :
    AttemptCase cfg call p s (attempt pw cfg call p s) := by
  have hcase := executeLogged_case pw cfg call.now call.retrievedAt p.view s call.book call.feeInfo
  rw [executeLogged_result] at hcase
  unfold attempt
  generalize (executeLogged pw cfg call.now call.retrievedAt p.view s call.book call.feeInfo).1 =
    requests at hcase
  generalize executeSignal pw cfg call.now call.retrievedAt p.view s call.book
    call.feeInfo = result at hcase
  cases hcase with
  | raised => exact .error
  | deferred | delayed => exact .deferred
  | skipped _ db' reason evidence account =>
    dsimp only
    split
    · exact .error
    · next haccepted =>
      refine .recorded _ .skipped (missedOrder cfg s reason call.now evidence) _ (.inl rfl) rfl ?_ ?_
        (by simpa using haccepted)
      · rcases account with rfl | rfl <;> rfl
      · rcases account with rfl | rfl <;> rfl
  | filled _ db' plan response fill snapshot info fee marketFee gates walk =>
    obtain ⟨-, hdb, -⟩ := executeGates_request gates
    dsimp only
    split
    · exact .error
    · next haccepted =>
      refine .recorded _ .executed
        (filledOrder cfg s call.now call.retrievedAt fill snapshot fee marketFee
          ((positionFor db' s).fillDelta s.side fill fee)) _
        (.inr rfl) rfl ?_ ?_ (by simpa using haccepted)
      · rw [commitFill_eq]
        rcases hdb with rfl | rfl <;> rfl
      · rw [commitFill_order]
        rcases hdb with rfl | rfl <;> rfl

/-! ## Signals not reached yet -/

/-- The signal is as the batch was selected, and so is the room for its order. -/
structure Untouched (db₀ : Db) (p : Progress) (id : Nat) : Prop where
  row : p.db.signal id = db₀.signal id
  waiting : id ∉ p.deferrals
  key : ∀ s, db₀.signal id = some s → keyTaken p.db s = keyTaken db₀ s

/-- What `pending_ids` is: rows of the table, each once, all pending; and the
table's unique sources. -/
structure PendingList (db : Db) (ids : List Nat) : Prop where
  nodup : ids.Nodup
  rows : ∀ id ∈ ids, ∃ s, db.signal id = some s ∧ s.status = .pending
  sources : (db.signals.map Signal.sourceTradeId).Nodup

theorem signal_id {db : Db} {id : Nat} {s : Signal} (h : db.signal id = some s) : s.id = id :=
  (Keyed.find_some Signal.id h).2

theorem find_bumped_other {id : Nat} {deferrals : List Nat}
    (h : id ∉ deferrals) (signals : List Signal) :
    Keyed.find Signal.id id (deferrals.foldr bumpDeferrals signals) =
      Keyed.find Signal.id id signals := by
  induction deferrals with
  | nil => rfl
  | cons id' l ih =>
    rw [List.mem_cons, not_or] at h
    rw [List.foldr_cons, find_bump, ih h.2]
    cases hf : Keyed.find Signal.id id signals with
    | none => rfl
    | some s =>
      have hid := (Keyed.find_some Signal.id hf).2
      rw [Option.map_some, if_neg fun he => h.1 (hid.symm.trans he)]

theorem Untouched.view {db₀ : Db} {p : Progress} {id : Nat} (h : Untouched db₀ p id) :
    p.view.signal id = db₀.signal id := (find_bumped_other h.waiting p.db.signals).trans h.row

theorem keyTaken_snoc {db after : Db} {o : PaperOrder}
    (h : after.paperOrders = db.paperOrders ++ [o]) {s : Signal}
    (ho : o.idempotencyKey ≠ idempotencyKey s) : keyTaken after s = keyTaken db s := by
  unfold keyTaken
  rw [h, List.any_append]
  simp [ho]

/-- A call on one signal leaves the others as they are. -/
theorem Untouched.attempt {db₀ : Db} {p : Progress} {id : Nat} (h : Untouched db₀ p id)
    (sources : (db₀.signals.map Signal.sourceTradeId).Nodup) {s : Signal}
    (hs : db₀.signal s.id = some s) (hne : s.id ≠ id) (pw : DecPow) (cfg : Settings)
    (call : Call) :
    Untouched db₀ (attempt pw cfg call p s).2 id := by
  have hcase := attempt_case pw cfg call p s
  generalize Polycopy.attempt pw cfg call p s = result at hcase
  cases hcase with
  | error => exact ⟨h.row, List.not_mem_nil, h.key⟩
  | deferred =>
    refine ⟨h.row, ?_, h.key⟩
    unfold Progress.defer
    dsimp only
    split
    · exact fun hm => (List.mem_cons.mp hm).elim (fun he => hne he.symm) h.waiting
    · exact h.waiting
  | recorded outcome status o after done key signals orders =>
    refine ⟨?_, List.not_mem_nil, fun s' hs' => ?_⟩
    · show Keyed.find Signal.id id after.signals = _
      rw [signals, find_setStatus]
      have hview := h.view
      unfold Db.signal at hview
      rw [hview]
      cases hrow : Keyed.find Signal.id id db₀.signals with
      | none => exact hrow.symm
      | some s' =>
        rw [Option.map_some, if_neg fun he => hne (he.symm.trans (Keyed.find_some Signal.id hrow).2)]
        exact hrow.symm
    · rw [← h.key s' hs']
      refine keyTaken_snoc orders fun he => hne ?_
      rw [key] at he
      have hsame := Keyed.eq_of_key Signal.sourceTradeId sources (Keyed.find_some Signal.id hs).1
        (Keyed.find_some Signal.id hs').1 (idempotencyKey_inj he)
      rw [hsame]
      exact signal_id hs'

theorem turn_eq {db₀ : Db} {st : CycleState} {id : Nat} {s : Signal}
    (h : Untouched db₀ st.progress id) (hs : db₀.signal id = some s)
    (hpending : s.status = .pending) (pw : DecPow) (cfg : Settings) (calls : Nat → Call) :
    turn pw cfg calls st id = if (calls id).now < eligibleAt cfg s ∧
      cfg.orderKillSwitch = false then none
      else some (st.record id (attempt pw cfg (calls id) st.progress s)) := by
  unfold turn
  rw [h.view, hs]
  dsimp only
  rw [if_neg (not_not.mpr hpending)]

theorem record_progress (st : CycleState) (id : Nat) (result : Outcome × Progress) :
    (st.record id result).progress = result.2 := by
  obtain ⟨outcome, p⟩ := result
  cases outcome <;> rfl

theorem record_errors (st : CycleState) (id : Nat) (result : Outcome × Progress) :
    (st.record id result).errors = if result.1 = .error then st.errors ++ [id] else st.errors := by
  obtain ⟨outcome, p⟩ := result
  cases outcome <;> rfl

/-! ## Two cycles side by side -/

def uncounted (s : Signal) : Signal := { s with killSwitchDeferrals := 0 }

/-- The same tables, and but for their counts the same signals outside `F`. -/
structure Alike (F : List Nat) (a b : Db) : Prop where
  tables : b = { a with signals := b.signals }
  signals : ∀ id, id ∉ F → (a.signal id).map uncounted = (b.signal id).map uncounted

theorem view_eq (p : Progress) :
    p.view = { p.db with signals := p.deferrals.foldr bumpDeferrals p.db.signals } := by
  unfold Progress.view Session.view
  rw [Option.or_none]

theorem Alike.view {F : List Nat} {p q : Progress} (h : Alike F p.db q.db) :
    Alike F p.view q.view := by
  refine ⟨?_, fun id hid => ?_⟩
  · rw [view_eq p, view_eq q]
    exact congrArg
      (fun db : Db => { db with signals := q.deferrals.foldr bumpDeferrals q.db.signals }) h.tables
  · exact (find_bumped uncounted (fun _ _ => rfl) id p.deferrals p.db.signals).trans
      ((h.signals id hid).trans (find_bumped uncounted
        (fun _ _ => rfl) id q.deferrals q.db.signals).symm)

theorem uncounted_setStatus (status : SignalStatus) (id id' : Nat) (signals : List Signal) :
    (Keyed.find Signal.id id' (setStatus status id signals)).map uncounted =
      ((Keyed.find Signal.id id' signals).map uncounted).map fun s =>
      if s.id = id then { s with status := status } else s := by
  rw [find_setStatus, Option.map_map, Option.map_map]
  refine congrArg (fun f => Option.map f _) (funext fun s => ?_)
  show uncounted (if s.id = id then _ else s) = if s.id = id then _ else uncounted s
  split <;> rfl

/-- Two calls over alike tables end alike. -/
theorem Alike.attempt {F : List Nat} {p q : Progress} (h : Alike F p.db q.db)
    (pw : DecPow) (cfg : Settings) (call : Call)
    (s : Signal) : (attempt pw cfg call q s).1 = (attempt pw cfg call p s).1 ∧
      Alike F (attempt pw cfg call p s).2.db (attempt pw cfg call q s).2.db := by
  have hview := h.view
  have hrefused : refused call q s = refused call p s := by
    unfold refused keyTaken
    rw [h.tables]
  have hcommit : ∀ (status : SignalStatus) (after : Db), Alike F
      { after with signals := setStatus status s.id p.view.signals }
      { after with signals := setStatus status s.id q.view.signals } := by
    intro status after
    refine ⟨rfl, fun id hid => ?_⟩
    show (Keyed.find Signal.id id (setStatus status s.id _)).map uncounted = _
    rw [uncounted_setStatus]
    refine Eq.trans ?_ (uncounted_setStatus status s.id id q.view.signals).symm
    exact congrArg _ (hview.signals id hid)
  have hp := executeSignal_signals pw cfg call.now call.retrievedAt p.view s
    call.book call.feeInfo p.view.signals
  have hq := executeSignal_signals pw cfg call.now call.retrievedAt p.view s
    call.book call.feeInfo q.view.signals
  rw [← hview.tables] at hq
  unfold Polycopy.attempt
  rw [hq, hrefused]
  cases hresult : executeSignal pw cfg call.now call.retrievedAt p.view s call.book call.feeInfo with
  | raised => exact ⟨rfl, h⟩
  | deferred after => exact ⟨rfl, h⟩
  | skipped reason after =>
    have hafter := hp.symm.trans hresult
    rw [hresult] at hafter
    unfold Executed.onSignals at hafter ⊢
    dsimp only at hafter ⊢
    split
    · exact ⟨rfl, h⟩
    · refine ⟨rfl, ?_⟩
      rw [← (Executed.skipped.inj hafter).2]
      exact hcommit .skipped after
  | filled after =>
    have hafter := hp.symm.trans hresult
    rw [hresult] at hafter
    unfold Executed.onSignals at hafter ⊢
    dsimp only at hafter ⊢
    split
    · exact ⟨rfl, h⟩
    · refine ⟨rfl, ?_⟩
      rw [← Executed.filled.inj hafter]
      exact hcommit .executed after

theorem cycleLoop_stop {pw : DecPow} {cfg : Settings} {calls : Nat → Call}
    {st : CycleState} {id : Nat} (h : turn pw cfg calls st id = none) (rest : List Nat) :
    cycleLoop pw cfg calls (id :: rest) st = st := by
  unfold cycleLoop
  rw [h]

theorem cycleLoop_turn {pw : DecPow} {cfg : Settings} {calls : Nat → Call}
    {st st' : CycleState} {id : Nat} (h : turn pw cfg calls st id = some st')
    (rest : List Nat) :
    cycleLoop pw cfg calls (id :: rest) st = cycleLoop pw cfg calls rest st' := by
  conv_lhs => unfold cycleLoop
  rw [h]

theorem cycleLoop_errors (pw : DecPow) (cfg : Settings) (calls : Nat → Call) (ids : List Nat) :
    ∀ (st : CycleState) (id : Nat), id ∈ (cycleLoop pw cfg calls ids st).errors →
    id ∈ st.errors ∨ id ∈ ids := by
  induction ids with
  | nil => exact fun st id h => .inl h
  | cons head rest ih =>
    intro st id h
    unfold cycleLoop at h
    cases hturn : turn pw cfg calls st head with
    | none =>
      rw [hturn] at h
      exact .inl h
    | some st' =>
      rw [hturn] at h
      rcases ih st' id h with h | h
      · unfold turn at hturn
        split at hturn
        · obtain rfl := Option.some.inj hturn
          exact .inl h
        · split at hturn
          · obtain rfl := Option.some.inj hturn
            exact .inl h
          · split at hturn
            · cases hturn
            · obtain rfl := Option.some.inj hturn
              rw [record_errors] at h
              split at h
              · exact (List.mem_append.mp h).imp_right fun h =>
                  List.mem_cons.mpr (.inl (List.mem_singleton.mp h))
              · exact .inl h
      · exact .inr (List.mem_cons_of_mem _ h)

section
variable {pw : DecPow} {cfg : Settings} {calls : Nat → Call} {db₀ : Db} {F : List Nat}

/-- A call of the loop leaves the signals after it untouched. -/
theorem untouched_rest {st : CycleState} {id : Nat} {rest : List Nat} {s : Signal}
    (sources : (db₀.signals.map Signal.sourceTradeId).Nodup) (hn : (id :: rest).Nodup)
    (hs : db₀.signal id = some s) {P : Nat → Prop}
    (h : ∀ d ∈ rest, P d → Untouched db₀ st.progress d) :
    ∀ d ∈ rest, P d →
    Untouched db₀ (st.record id (attempt pw cfg (calls id) st.progress s)).progress d := by
  intro d hd hP
  have hid := signal_id hs
  rw [record_progress]
  refine (h d hd hP).attempt sources (hid.symm ▸ hs) ?_ pw cfg (calls id)
  rw [hid]
  rintro rfl
  exact (List.nodup_cons.mp hn).1 hd

theorem untouched_tail {st : CycleState} {id : Nat} {rest : List Nat} {s : Signal}
    (sources : (db₀.signals.map Signal.sourceTradeId).Nodup) (hn : (id :: rest).Nodup)
    (hs : db₀.signal id = some s) (h : ∀ d ∈ id :: rest, Untouched db₀ st.progress d) :
    ∀ d ∈ rest, Untouched db₀ (st.record id (attempt pw cfg (calls id) st.progress s)).progress d :=
  fun d hd => untouched_rest sources hn hs (P := fun _ => True)
    (fun d hd _ => h d (List.mem_cons_of_mem _ hd)) d hd trivial

/-- A call that raised left the database as it was. -/
theorem raised_db {st : CycleState} {id : Nat} {rest : List Nat} {s : Signal}
    (h : id ∈ (cycleLoop pw cfg calls rest
      (st.record id (attempt pw cfg (calls id) st.progress s))).errors)
    (hnew : id ∉ st.errors) (hrest : id ∉ rest) :
    (st.record id (attempt pw cfg (calls id) st.progress s)).progress.db = st.progress.db := by
  have herrors := (cycleLoop_errors pw cfg calls rest _ id h).resolve_right hrest
  rw [record_errors] at herrors
  rw [record_progress]
  have hcase := attempt_case pw cfg (calls id) st.progress s
  generalize attempt pw cfg (calls id) st.progress s = result at hcase herrors
  cases hcase with
  | error => rfl
  | deferred => rfl
  | recorded outcome status o after done =>
    rcases done with rfl | rfl <;> exact absurd herrors hnew

/-- With and without the signals of `F`, which all raise, the loop leaves alike tables. -/
theorem cycleLoop_alike (sources : (db₀.signals.map Signal.sourceTradeId).Nodup) :
    ∀ (ids : List Nat) (a b : CycleState),
    ids.Nodup → (∀ id ∈ ids, ∃ s, db₀.signal id = some s ∧ s.status = .pending) →
    (∀ id ∈ ids, Untouched db₀ a.progress id) → (∀ id ∈ ids, id ∉ F → Untouched db₀ b.progress id) →
    Alike F a.progress.db b.progress.db →
    (∀ id ∈ ids, id ∉ a.errors) → (∀ id ∈ ids, id ∈ F → id ∈ (cycleLoop pw cfg calls ids a).errors) →
    Alike F (cycleLoop pw cfg calls ids a).progress.db
      (cycleLoop pw cfg calls (ids.filter fun id => id ∉ F) b).progress.db := by
  intro ids
  induction ids with
  | nil => exact fun a b _ _ _ _ halike _ _ => halike
  | cons id rest ih =>
    intro a b hn hrows ha hb halike hnew hF
    obtain ⟨s, hs, hpending⟩ := hrows id List.mem_cons_self
    have hturn := turn_eq (ha id List.mem_cons_self) hs hpending pw cfg calls
    have hrest : ∀ d ∈ rest, ∃ s, db₀.signal d = some s ∧ s.status = .pending :=
      fun d hd => hrows d (List.mem_cons_of_mem _ hd)
    have hnrest := (List.nodup_cons.mp hn).2
    have ha' : ∀ d ∈ rest,
        Untouched db₀ (a.record id (attempt pw cfg (calls id) a.progress s)).progress d :=
      untouched_tail sources hn hs ha
    by_cases hdue : (calls id).now < eligibleAt cfg s ∧ cfg.orderKillSwitch = false
    · -- both loops stop, or the second does not come to the signal
      rw [if_pos hdue] at hturn
      rw [cycleLoop_stop hturn] at hF ⊢
      have hout : ∀ d ∈ id :: rest, d ∉ F := fun d hd hdF => hnew d hd (hF d hd hdF)
      have hid := hout id List.mem_cons_self
      have hturnb := turn_eq (hb id List.mem_cons_self hid) hs hpending pw cfg calls
      rw [if_pos hdue] at hturnb
      rw [List.filter_cons_of_pos (by simpa using hid), cycleLoop_stop hturnb]
      exact halike
    · rw [if_neg hdue] at hturn
      rw [cycleLoop_turn hturn] at hF ⊢
      have hFrest : ∀ d ∈ rest, d ∈ F → d ∈ (cycleLoop pw cfg calls rest
          (a.record id (attempt pw cfg (calls id) a.progress s))).errors :=
        fun d hd hdF => hF d (List.mem_cons_of_mem _ hd) hdF
      have hnewrest : ∀ d ∈ rest,
          d ∉ (a.record id (attempt pw cfg (calls id) a.progress s)).errors := by
        intro d hd hm
        rw [record_errors] at hm
        split at hm
        · rcases List.mem_append.mp hm with hm | hm
          · exact hnew d (List.mem_cons_of_mem _ hd) hm
          · exact (List.nodup_cons.mp hn).1 (List.mem_singleton.mp hm ▸ hd)
        · exact hnew d (List.mem_cons_of_mem _ hd) hm
      by_cases hid : id ∈ F
      · have hdb := raised_db (hF id List.mem_cons_self hid)
          (hnew id List.mem_cons_self) (List.nodup_cons.mp hn).1
        rw [List.filter_cons_of_neg (by simpa using hid)]
        refine ih _ b hnrest hrest ha' (fun d hd =>
          hb d (List.mem_cons_of_mem _ hd)) ?_ hnewrest hFrest
        rw [hdb]
        exact halike
      · have hturnb := turn_eq (hb id List.mem_cons_self hid) hs hpending pw cfg calls
        rw [if_neg hdue] at hturnb
        rw [List.filter_cons_of_pos (by simpa using hid), cycleLoop_turn hturnb]
        refine ih _ _ hnrest hrest ha' ?_ ?_ hnewrest hFrest
        · exact untouched_rest sources hn hs fun d hd => hb d (List.mem_cons_of_mem _ hd)
        · rw [record_progress, record_progress]
          exact (halike.attempt pw cfg (calls id) s).2

end

/-! ## The counts that reach the database -/

/-- Too old by its source time when its turn comes: the one outcome recorded
behind the kill switch. -/
def stale (cfg : Settings) (calls : Nat → Call) (db : Db) (id : Nat) : Bool :=
  (db.signal id).any fun s =>
    decide (cfg.maxSignalExecutionAgeSeconds < (calls id).now - s.t0TradedAt)

/-- The write of its order would be refused. -/
def refusedAt (calls : Nat → Call) (db : Db) (id : Nat) : Bool :=
  (db.signal id).any fun s => (calls id).dbRaises || keyTaken db s

/-- The next commit these signals try fails. -/
def lost (cfg : Settings) (calls : Nat → Call) (db : Db) (ids : List Nat) : Bool :=
  (ids.find? (stale cfg calls db)).any (refusedAt calls db)

theorem lost_cons (cfg : Settings) (calls : Nat → Call) (db : Db) (id : Nat) (ids : List Nat) :
    lost cfg calls db (id :: ids) = if stale cfg calls db id then refusedAt calls db id
    else lost cfg calls db ids := by
  unfold lost
  rw [List.find?_cons]
  cases stale cfg calls db id <;> rfl

theorem find_setStatus_other {d id : Nat} (h : d ≠ id)
    (status : SignalStatus) (signals : List Signal) :
    Keyed.find Signal.id d (setStatus status id signals) = Keyed.find Signal.id d signals := by
  rw [find_setStatus]
  cases hf : Keyed.find Signal.id d signals with
  | none => rfl
  | some s =>
    rw [Option.map_some, if_neg fun he => h ((Keyed.find_some Signal.id hf).2.symm.trans he)]

theorem find_bump_other {d id : Nat} (h : d ≠ id) (signals : List Signal) :
    Keyed.find Signal.id d (bumpDeferrals id signals) = Keyed.find Signal.id d signals :=
  @find_bumped_other d [id] (fun hm => h (List.mem_singleton.mp hm)) signals

/-- Behind the kill switch a call counts, or records a stale miss. -/
theorem attempt_kill {cfg : Settings} (hkill : cfg.orderKillSwitch = true)
    (hpaper : paperOnly cfg = true) (pw : DecPow) (call : Call) (p : Progress)
    (s : Signal) : attempt pw cfg call p s =
      if cfg.maxSignalExecutionAgeSeconds < call.now - s.t0TradedAt then
        if refused call p s then (.error, p.rollback)
        else (.missed, committed (recordSkip cfg p.view s .staleSignal call.now none))
      else (.deferred, ⟨p.db, s.id :: p.deferrals⟩) := by
  unfold attempt executeSignal executeGates
  rw [if_neg (by rw [hpaper]; decide)]
  by_cases hold : cfg.maxSignalExecutionAgeSeconds < call.now - s.t0TradedAt
  · rw [if_pos hold, if_pos hold]
  · rw [if_neg hold, if_neg hold, if_pos hkill]
    show (Outcome.deferred, p.defer cfg s) = _
    unfold Progress.defer
    rw [if_pos hkill]

section
variable {pw : DecPow} {cfg : Settings} {calls : Nat → Call} {db₀ : Db}

theorem turn_kill (hkill : cfg.orderKillSwitch = true) {st : CycleState} {id : Nat} {s : Signal}
    (h : Untouched db₀ st.progress id) (hs : db₀.signal id = some s)
    (hpending : s.status = .pending) :
    turn pw cfg calls st id = some (st.record id (attempt pw cfg (calls id) st.progress s)) := by
  rw [turn_eq h hs hpending, if_neg]
  rintro ⟨-, hoff⟩
  rw [hkill] at hoff
  cases hoff

theorem refused_untouched {p : Progress} {id : Nat} {s : Signal} (h : Untouched db₀ p id)
    (hs : db₀.signal id = some s) :
    refused (calls id) p s = refusedAt calls db₀ id := by
  unfold refused refusedAt
  rw [h.key s hs, hs]
  rfl

theorem stale_row {id : Nat} {s : Signal} (hs : db₀.signal id = some s) :
    stale cfg calls db₀ id = decide (cfg.maxSignalExecutionAgeSeconds <
      (calls id).now - s.t0TradedAt) := by
  unfold stale
  rw [hs]
  rfl

/-- Where a turn behind the kill switch leaves the session. -/
theorem record_kill (hkill : cfg.orderKillSwitch = true) (hpaper : paperOnly cfg = true)
    {st : CycleState} {id : Nat} {s : Signal} (h : Untouched db₀ st.progress id)
    (hs : db₀.signal id = some s) :
    (st.record id (attempt pw cfg (calls id) st.progress s)).progress =
      if stale cfg calls db₀ id then
        if refusedAt calls db₀ id then st.progress.rollback
        else committed (recordSkip cfg st.progress.view s .staleSignal (calls id).now none)
      else ⟨st.progress.db, id :: st.progress.deferrals⟩ := by
  rw [record_progress, attempt_kill hkill hpaper, refused_untouched h hs, stale_row hs, signal_id hs]
  by_cases hold : cfg.maxSignalExecutionAgeSeconds < (calls id).now - s.t0TradedAt
  · rw [if_pos hold, decide_eq_true hold, if_pos rfl]
    cases refusedAt calls db₀ id <;> rfl
  · rw [if_neg hold, decide_eq_false hold, if_neg (by decide)]

/-- What the turns of other signals make of a row: the waiting counts are kept unless
the next commit fails. -/
theorem cycleLoop_others (hkill : cfg.orderKillSwitch = true) (hpaper : paperOnly cfg = true)
    (sources : (db₀.signals.map Signal.sourceTradeId).Nodup) (d : Nat) :
    ∀ (ids : List Nat) (st : CycleState), ids.Nodup →
    (∀ id ∈ ids, ∃ s, db₀.signal id = some s ∧ s.status = .pending) →
    (∀ id ∈ ids, Untouched db₀ st.progress id) →
    d ∉ ids → (cycleLoop pw cfg calls ids st).progress.view.signal d =
      if lost cfg calls db₀ ids then st.progress.db.signal d else st.progress.view.signal d := by
  intro ids
  induction ids with
  | nil => exact fun st _ _ _ _ => rfl
  | cons id rest ih =>
    intro st hn hrows hu hd
    obtain ⟨s, hs, hpending⟩ := hrows id List.mem_cons_self
    obtain ⟨hdid, hdrest⟩ := not_or.mp (fun h => hd (List.mem_cons.mpr h))
    have huid := hu id List.mem_cons_self
    have hnext :=
      ih (st.record id (attempt pw cfg (calls id) st.progress s)) (List.nodup_cons.mp hn).2
      (fun x hx => hrows x (List.mem_cons_of_mem _ hx)) (untouched_tail sources hn hs hu) hdrest
    rw [cycleLoop_turn (turn_kill hkill huid hs hpending), hnext,
      record_kill hkill hpaper huid hs, lost_cons]
    cases hst : stale cfg calls db₀ id with
    | false =>
      have hview : (⟨st.progress.db, id :: st.progress.deferrals⟩ : Progress).view.signal d =
          st.progress.view.signal d := find_bump_other hdid _
      simp only [Bool.false_eq_true, if_false]
      rw [hview]
    | true =>
      simp only [if_true]
      cases hrefused : refusedAt calls db₀ id with
      | true => exact ite_self _
      | false =>
        have hview : (committed (recordSkip cfg st.progress.view s .staleSignal
            (calls id).now none)).db.signal d =
            st.progress.view.signal d := by
          show Keyed.find Signal.id d (setStatus .skipped s.id st.progress.view.signals) = _
          rw [signal_id hs]
          exact find_setStatus_other hdid _ _
        simp only [Bool.false_eq_true, if_false]
        exact (ite_self _).trans hview

/-- The count of a signal of the batch: one more when it was deferred and the next
commit does not fail. -/
theorem cycleLoop_count (hkill : cfg.orderKillSwitch = true) (hpaper : paperOnly cfg = true)
    (sources : (db₀.signals.map Signal.sourceTradeId).Nodup) {d : Nat} {post : List Nat}
    {sd : Signal}
    (hd : db₀.signal d = some sd) : ∀ (pre : List Nat) (st : CycleState), (pre ++ d :: post).Nodup →
    (∀ id ∈ pre ++ d :: post, ∃ s, db₀.signal id = some s ∧ s.status = .pending) →
    (∀ id ∈ pre ++ d :: post, Untouched db₀ st.progress id) →
    ((cycleLoop pw cfg calls (pre ++ d :: post) st).progress.view.signal d).map
      Signal.killSwitchDeferrals =
      some (if stale cfg calls db₀ d || lost cfg calls db₀ post then sd.killSwitchDeferrals
        else sd.killSwitchDeferrals + 1) := by
  intro pre
  induction pre with
  | nil =>
    intro st hn hrows hu
    rw [List.nil_append] at *
    obtain ⟨s, hs, hpending⟩ := hrows d List.mem_cons_self
    obtain rfl := Option.some.inj (hd.symm.trans hs)
    have hud := hu d List.mem_cons_self
    obtain ⟨hdpost, hnpost⟩ := List.nodup_cons.mp hn
    have hnext := @cycleLoop_others pw cfg calls db₀ hkill hpaper sources d post
      (st.record d (attempt pw cfg (calls d) st.progress sd)) hnpost
      (fun x hx => hrows x (List.mem_cons_of_mem _ hx)) (untouched_tail sources hn hs hu) hdpost
    rw [cycleLoop_turn (turn_kill hkill hud hs hpending), hnext, record_kill hkill hpaper hud hs]
    cases hst : stale cfg calls db₀ d with
    | true =>
      simp only [if_true, Bool.true_or]
      cases hrefused : refusedAt calls db₀ d with
      | true =>
        have hrow : st.progress.db.signal d = some sd := hud.row.trans hd
        simp only [if_true]
        exact (congrArg (Option.map _) (ite_self _)).trans (congrArg (Option.map _) hrow)
      | false =>
        have hrow : (committed (recordSkip cfg st.progress.view sd .staleSignal
            (calls d).now none)).db.signal d =
            some { sd with status := .skipped } := by
          show Keyed.find Signal.id d (setStatus .skipped sd.id st.progress.view.signals) = _
          have hview : Keyed.find Signal.id d st.progress.view.signals = some sd :=
            hud.view.trans hd
          rw [find_setStatus, hview, Option.map_some, if_pos rfl]
        simp only [Bool.false_eq_true, if_false]
        exact (congrArg (Option.map _) (ite_self _)).trans (congrArg (Option.map _) hrow)
    | false =>
      simp only [Bool.false_eq_true, if_false, Bool.false_or]
      cases lost cfg calls db₀ post with
      | true =>
        have hrow : st.progress.db.signal d = some sd := hud.row.trans hd
        simp only [if_true]
        exact congrArg (Option.map _) hrow
      | false =>
        have hrow : (⟨st.progress.db, d :: st.progress.deferrals⟩ : Progress).view.signal d =
            some { sd with killSwitchDeferrals := sd.killSwitchDeferrals + 1 } := by
          show Keyed.find Signal.id d (bumpDeferrals d st.progress.view.signals) = _
          have hview : Keyed.find Signal.id d st.progress.view.signals = some sd :=
            hud.view.trans hd
          rw [find_bump, hview, Option.map_some, if_pos (signal_id hs)]
        simp only [Bool.false_eq_true, if_false]
        exact congrArg (Option.map _) hrow
  | cons id pre ih =>
    intro st hn hrows hu
    rw [List.cons_append] at *
    obtain ⟨s, hs, hpending⟩ := hrows id List.mem_cons_self
    rw [cycleLoop_turn (turn_kill hkill (hu id List.mem_cons_self) hs hpending)]
    exact ih _ (List.nodup_cons.mp hn).2 (fun x hx => hrows x (List.mem_cons_of_mem _ hx))
      (untouched_tail sources hn hs hu)

/-- Behind the kill switch only a stale signal whose write is refused raises. -/
theorem cycleLoop_raised (hkill : cfg.orderKillSwitch = true) (hpaper : paperOnly cfg = true)
    (sources : (db₀.signals.map Signal.sourceTradeId).Nodup) :
    ∀ (ids : List Nat) (st : CycleState), ids.Nodup →
    (∀ id ∈ ids, ∃ s, db₀.signal id = some s ∧ s.status = .pending) →
    (∀ id ∈ ids, Untouched db₀ st.progress id) →
    ∀ f ∈ (cycleLoop pw cfg calls ids st).errors, f ∈ st.errors ∨ refusedAt calls db₀ f = true := by
  intro ids
  induction ids with
  | nil => exact fun st _ _ _ f hf => .inl hf
  | cons id rest ih =>
    intro st hn hrows hu f hf
    obtain ⟨s, hs, hpending⟩ := hrows id List.mem_cons_self
    have huid := hu id List.mem_cons_self
    rw [cycleLoop_turn (turn_kill hkill huid hs hpending)] at hf
    have hnext := ih _ (List.nodup_cons.mp hn).2 (fun x hx => hrows x (List.mem_cons_of_mem _ hx))
      (untouched_tail sources hn hs hu) f hf
    refine hnext.elim (fun hmem => ?_) .inr
    rw [record_errors] at hmem
    split at hmem
    · next herror =>
      rw [attempt_kill hkill hpaper, refused_untouched huid hs] at herror
      rcases List.mem_append.mp hmem with hmem | hmem
      · exact .inl hmem
      · obtain rfl := List.mem_singleton.mp hmem
        split at herror
        · split at herror
          · next hrefused => exact .inr hrefused
          · cases herror
        · cases herror
    · exact .inl hmem

/-- A call that cannot count leaves the counts as they are, and none waiting. -/
theorem attempt_uncounted (hoff : ¬ (cfg.orderKillSwitch = true ∧ paperOnly cfg = true))
    {p : Progress} (hnone : p.deferrals = []) (call : Call) (s : Signal) (d : Nat) :
      (attempt pw cfg call p s).2.deferrals = [] ∧
      ((attempt pw cfg call p s).2.db.signal d).map Signal.killSwitchDeferrals =
        (p.db.signal d).map Signal.killSwitchDeferrals := by
  have hcase := attempt_case pw cfg call p s
  by_cases hkill : cfg.orderKillSwitch = true
  · have hraised : attempt pw cfg call p s = (.error, p.rollback) := by
      unfold attempt executeSignal executeGates
      rw [if_pos (by simpa using fun hpaper => hoff ⟨hkill, hpaper⟩)]
    rw [hraised]
    exact ⟨rfl, rfl⟩
  · generalize attempt pw cfg call p s = result at hcase
    cases hcase with
    | error => exact ⟨rfl, rfl⟩
    | deferred =>
      unfold Progress.defer
      rw [if_neg hkill]
      exact ⟨hnone, rfl⟩
    | recorded outcome status o after done key signals orders =>
      refine ⟨rfl, ?_⟩
      show (Keyed.find Signal.id d after.signals).map _ = _
      have hview : p.view.signals = p.db.signals := by
        rw [view_eq, hnone]
        rfl
      rw [signals, hview, find_setStatus, Option.map_map]
      refine congrArg (fun f => Option.map f _) (funext fun a => ?_)
      show Signal.killSwitchDeferrals (if a.id = s.id then _ else a) = a.killSwitchDeferrals
      split <;> rfl

/-- Without the kill switch, or out of paper mode, nothing is counted. -/
theorem cycleLoop_uncounted
    (hoff : ¬ (cfg.orderKillSwitch = true ∧ paperOnly cfg = true)) (d : Nat) :
    ∀ (ids : List Nat) (st : CycleState), st.progress.deferrals = [] →
    (cycleLoop pw cfg calls ids st).progress.deferrals = [] ∧
      ((cycleLoop pw cfg calls ids st).progress.db.signal d).map Signal.killSwitchDeferrals =
        (st.progress.db.signal d).map Signal.killSwitchDeferrals := by
  intro ids
  induction ids with
  | nil => exact fun st h => ⟨h, rfl⟩
  | cons id rest ih =>
    intro st hnone
    cases hturn : turn pw cfg calls st id with
    | none =>
      rw [cycleLoop_stop hturn]
      exact ⟨hnone, rfl⟩
    | some st' =>
      rw [cycleLoop_turn hturn]
      unfold turn at hturn
      split at hturn
      · obtain rfl := Option.some.inj hturn
        exact ih _ hnone
      · next s hs =>
        split at hturn
        · obtain rfl := Option.some.inj hturn
          exact ih _ hnone
        · split at hturn
          · cases hturn
          · obtain rfl := Option.some.inj hturn
            have hafter := @attempt_uncounted pw cfg hoff _ hnone (calls id) s d
            rw [← hafter.2, ← record_progress st id]
            exact ih _ (by rw [record_progress]; exact hafter.1)

end

/-! ## What the cycle persists -/

/-- A count waits only when `stats["deferred"]` will commit it. -/
theorem cycleLoop_waits (pw : DecPow) (cfg : Settings) (calls : Nat → Call)
    (ids : List Nat) : ∀ st : CycleState,
    (st.deferred = false → st.progress.deferrals = []) →
    (cycleLoop pw cfg calls ids st).deferred = false →
    (cycleLoop pw cfg calls ids st).progress.deferrals = [] := by
  induction ids with
  | nil => exact fun st h => h
  | cons id rest ih =>
    intro st h
    cases hturn : turn pw cfg calls st id with
    | none =>
      rw [cycleLoop_stop hturn]
      exact h
    | some st' =>
      rw [cycleLoop_turn hturn]
      refine ih st' ?_
      unfold turn at hturn
      split at hturn
      · obtain rfl := Option.some.inj hturn
        exact h
      · next s hs =>
        split at hturn
        · obtain rfl := Option.some.inj hturn
          exact h
        · split at hturn
          · cases hturn
          · obtain rfl := Option.some.inj hturn
            have hcase := attempt_case pw cfg (calls id) st.progress s
            generalize attempt pw cfg (calls id) st.progress s = result at hcase
            cases hcase with
            | error => exact fun _ => rfl
            | deferred => exact fun hdef => by cases hdef
            | recorded outcome status o after done =>
              rcases done with rfl | rfl <;> exact fun _ => rfl

/-- The commit of the sweep. -/
def sweepCommit (cfg : Settings) (db : Db) : Db :=
  if 0 < (sweepProfitIfDue cfg db).2 then (sweepProfitIfDue cfg db).1 else db

theorem committed_view (db : Db) : (committed db).view = db := by
  rw [view_eq]
  rfl

theorem persisted_eq {cfg : Settings} {st : CycleState}
    (h : st.deferred = false → st.progress.deferrals = []) :
    st.persisted cfg = sweepCommit cfg st.progress.view := by
  unfold CycleState.persisted CycleState.flush sweepCommit
  cases hdef : st.deferred with
  | true =>
    simp only [if_true, committed_view]
    rfl
  | false =>
    have hview : st.progress.view = st.progress.db := by
      rw [view_eq, h hdef]
      rfl
    simp only [Bool.false_eq_true, if_false]
    rw [hview]

theorem runCycle_persisted (pw : DecPow) (cfg : Settings) (calls : Nat → Call)
    (ids : List Nat) (db : Db) :
    (runCycle pw cfg calls ids db).persisted cfg =
      sweepCommit cfg (runCycle pw cfg calls ids db).progress.view :=
  persisted_eq (cycleLoop_waits pw cfg calls ids ⟨⟨db, []⟩, false, []⟩ fun _ => rfl)

theorem sweep_signals (cfg : Settings) (db : Db) (signals : List Signal) :
    sweepProfitIfDue cfg { db with signals := signals } =
      ({ (sweepProfitIfDue cfg db).1 with signals := signals }, (sweepProfitIfDue cfg db).2) := by
  unfold sweepProfitIfDue
  rw [getOrCreate_signals, getOrCreate_withAccount]
  dsimp only
  split
  · rfl
  · split
    · rfl
    · split
      · rfl
      · split
        · rfl
        · rw [show openPositionCost { withAccount cfg db with signals := signals } =
            openPositionCost (withAccount cfg db) from rfl]
          split <;> rfl

theorem sweepCommit_signals (cfg : Settings) (db : Db) (signals : List Signal) :
    sweepCommit cfg { db with signals := signals } =
      { sweepCommit cfg db with signals := signals } := by
  unfold sweepCommit
  rw [sweep_signals]
  dsimp only
  split <;> rfl

/-- What belongs to the signals outside `F`: every table but theirs as a whole, and their own
rows with the counts. -/
structure SameOutside (F : List Nat) (a b : Db) : Prop where
  paperOrders : b.paperOrders = a.paperOrders
  positions : b.positions = a.positions
  account : b.account = a.account
  ledger : b.ledger = a.ledger
  decisionLog : b.decisionLog = a.decisionLog
  signals : ∀ id, id ∉ F → b.signal id = a.signal id

theorem uncounted_inj {s s' : Signal} (h : uncounted s = uncounted s')
    (hcount : s.killSwitchDeferrals = s'.killSwitchDeferrals) : s = s' := by
  obtain ⟨a, b, c, d, e, f, g, i, j, k, l, m⟩ := s
  obtain ⟨a', b', c', d', e', f', g', i', j', k', l', m'⟩ := s'
  simp only [uncounted, Signal.mk.injEq] at h hcount ⊢
  obtain ⟨h1, h2, h3, h4, h5, h6, h7, h8, h9, -, h10, h11⟩ := h
  exact ⟨h1, h2, h3, h4, h5, h6, h7, h8, h9, hcount, h10, h11⟩

/-- Alike tables agree outside `F` once the counts do. -/
theorem Alike.sameOutside {F : List Nat} {a b : Db} (h : Alike F a b) (cfg : Settings) :
    SameOutside F (sweepCommit cfg a) (sweepCommit cfg b) ↔ ∀ id, id ∉ F →
      (b.signal id).map Signal.killSwitchDeferrals =
        (a.signal id).map Signal.killSwitchDeferrals := by
  have hsweep : sweepCommit cfg b = { sweepCommit cfg a with signals := b.signals } := by
    rw [← sweepCommit_signals, ← h.tables]
  have hrow : ∀ id, (sweepCommit cfg a).signal id = a.signal id := by
    intro id
    have hself := congrArg Db.signals (sweepCommit_signals cfg a a.signals)
    exact congrArg (Keyed.find Signal.id id) hself
  have hrowb : ∀ id, (sweepCommit cfg b).signal id = b.signal id := by
    intro id
    rw [hsweep]
    rfl
  constructor
  · intro hsame id hid
    have := hsame.signals id hid
    rw [hrow, hrowb] at this
    rw [this]
  · intro hcounts
    refine ⟨?_, ?_, ?_, ?_, ?_, fun id hid => ?_⟩
    · rw [hsweep]
    · rw [hsweep]
    · rw [hsweep]
    · rw [hsweep]
    · rw [hsweep]
    · rw [hrow, hrowb]
      have halike := h.signals id hid
      have hcount := hcounts id hid
      cases ha : a.signal id with
      | none =>
        rw [ha] at halike
        exact Option.map_eq_none_iff.mp halike.symm
      | some s =>
        cases hb : b.signal id with
        | none =>
          rw [ha, hb] at halike
          cases halike
        | some s' =>
          rw [ha, hb] at halike hcount
          exact congrArg some (uncounted_inj (Option.some.inj halike).symm (Option.some.inj hcount))

/-! ## The theorem -/

/-- The database without the signals of `F`. -/
def Db.without (db : Db) (F : List Nat) : Db :=
  { db with signals := db.signals.filter fun s => s.id ∉ F }

/-- No count is rolled back on account of `F`: where a deferred signal is followed by a failing one
of `F` before the next commit, a failing one outside `F` comes before that commit too. -/
def CountsKept (cfg : Settings) (calls : Nat → Call) (db : Db) (F ids : List Nat) : Prop :=
  cfg.orderKillSwitch = true → paperOnly cfg = true →
    ∀ pre d post, ids = pre ++ d :: post → d ∉ F → stale cfg calls db d = false →
      ∀ f, post.find? (stale cfg calls db) = some f → f ∈ F →
        ∃ g, (post.filter fun id => id ∉ F).find? (stale cfg calls db) = some g ∧
        refusedAt calls db g = true

theorem without_signal {db : Db} {F : List Nat} {id : Nat} (h : id ∉ F) :
    (db.without F).signal id = db.signal id := by
  unfold Db.signal Db.without Keyed.find
  rw [List.find?_filter]
  refine congrArg (fun p => List.find? p db.signals) (funext fun s => ?_)
  by_cases hs : s.id = id
  · simp [hs, h]
  · simp [hs]

theorem untouched_start (db : Db) (id : Nat) : Untouched db ⟨db, []⟩ id :=
  ⟨rfl, List.not_mem_nil, fun _ _ => rfl⟩

theorem untouched_without {db : Db} {F : List Nat} {id : Nat} (h : id ∉ F) :
    Untouched db ⟨db.without F, []⟩ id :=
  ⟨without_signal h, List.not_mem_nil, fun _ _ => rfl⟩

theorem alike_without (db : Db) (F : List Nat) : Alike F db (db.without F) :=
  ⟨rfl, fun id hid => by rw [without_signal hid]⟩

/-- With the failing signals of `F` gone, the next commit is the same unless
it was one of theirs. -/
theorem lost_filter_iff {cfg : Settings} {calls : Nat → Call} {db : Db} {F post : List Nat}
    (hF : ∀ f ∈ post, f ∈ F → refusedAt calls db f = true) :
    lost cfg calls db (post.filter fun id => id ∉ F) = lost cfg calls db post ↔
      ∀ f, post.find? (stale cfg calls db) = some f → f ∈ F →
        ∃ g, (post.filter fun id => id ∉ F).find? (stale cfg calls db) = some g ∧
        refusedAt calls db g = true := by
  induction post with
  | nil => exact ⟨fun _ f hf => (by cases hf), fun _ => rfl⟩
  | cons id post ih =>
    have ih := ih fun f hf => hF f (List.mem_cons_of_mem _ hf)
    rw [lost_cons, List.find?_cons]
    cases hst : stale cfg calls db id with
    | false =>
      simp only [Bool.false_eq_true, if_false]
      by_cases hid : id ∈ F
      · rw [List.filter_cons_of_neg (by simpa using hid)]
        exact ih
      · rw [List.filter_cons_of_pos (by simpa using hid), lost_cons, List.find?_cons, hst]
        simp only [Bool.false_eq_true, if_false]
        exact ih
    | true =>
      simp only [if_true]
      by_cases hid : id ∈ F
      · rw [List.filter_cons_of_neg (by simpa using hid), hF id List.mem_cons_self hid]
        constructor
        · intro hlost f hf _
          unfold lost at hlost
          exact (Option.any_eq_true _ _).mp hlost
        · intro hg
          obtain ⟨g, hfind, hrefused⟩ := hg id rfl hid
          unfold lost
          rw [hfind]
          exact hrefused
      · rw [List.filter_cons_of_pos (by simpa using hid), lost_cons, hst]
        simp only [if_true, true_iff]
        intro f hf hfF
        obtain rfl := Option.some.inj hf
        exact absurd hfF hid

theorem filter_split {F pre post : List Nat} {d : Nat} (hd : d ∉ F) :
    (pre ++ d :: post).filter (fun id => id ∉ F) =
      pre.filter (fun id => id ∉ F) ++ d :: post.filter fun id => id ∉ F := by
  rw [List.filter_append, List.filter_cons_of_pos (by simpa using hd)]

/-- A cycle that cannot count leaves the counts as they are. -/
theorem runCycle_uncounted {pw : DecPow} {cfg : Settings} {calls : Nat → Call}
    (hoff : ¬ (cfg.orderKillSwitch = true ∧ paperOnly cfg = true)) (ids : List Nat) (db : Db)
    (d : Nat) :
    ((runCycle pw cfg calls ids db).progress.view.signal d).map Signal.killSwitchDeferrals =
      (db.signal d).map Signal.killSwitchDeferrals := by
  obtain ⟨hnone, hsame⟩ := @cycleLoop_uncounted pw cfg calls hoff d ids ⟨⟨db, []⟩, false, []⟩ rfl
  have hrow : (runCycle pw cfg calls ids db).progress.view =
      (runCycle pw cfg calls ids db).progress.db := by
    rw [view_eq]
    unfold runCycle
    rw [hnone]
    rfl
  rw [hrow]
  exact hsame

/-- After a cycle with some failing signals everything of the others is as after the cycle without
these, if and only if none of their deferral counts is rolled back by them. -/
theorem failing_signals_isolated_iff (pw : DecPow) (cfg : Settings) (calls : Nat → Call)
    (db : Db) (ids F : List Nat) (pending : PendingList db ids)
    (raised : ∀ id ∈ F, id ∈ (runCycle pw cfg calls ids db).errors) :
    SameOutside F ((runCycle pw cfg calls ids db).persisted cfg)
      ((runCycle pw cfg calls (ids.filter fun id => id ∉ F) (db.without F)).persisted cfg) ↔
      CountsKept cfg calls db F ids := by
  obtain ⟨hn, hrows, sources⟩ := pending
  have hu : ∀ id ∈ ids, Untouched db ⟨db, []⟩ id := fun id _ => untouched_start db id
  have hnF : (ids.filter fun id => id ∉ F).Nodup := hn.filter _
  have hrowsF : ∀ id ∈ ids.filter fun id => id ∉ F, ∃ s,
      db.signal id = some s ∧ s.status = .pending :=
    fun id hid => hrows id (List.mem_of_mem_filter hid)
  have huF : ∀ id ∈ ids.filter fun id => id ∉ F, Untouched db ⟨db.without F, []⟩ id :=
    fun id hid => untouched_without (by simpa using List.of_mem_filter hid)
  have halike : Alike F (runCycle pw cfg calls ids db).progress.db
      (runCycle pw cfg calls (ids.filter fun id => id ∉ F) (db.without F)).progress.db :=
    cycleLoop_alike sources ids ⟨⟨db, []⟩, false, []⟩ ⟨⟨db.without F, []⟩, false, []⟩ hn hrows hu
      (fun id _ hid => untouched_without hid) (alike_without db F) (fun id _ => List.not_mem_nil)
        fun id _ hid => raised id hid
  have hview : ∀ x : Db, (⟨x, []⟩ : Progress).view = x := committed_view
  rw [runCycle_persisted, runCycle_persisted, halike.view.sameOutside cfg]
  by_cases hcounting : cfg.orderKillSwitch = true ∧ paperOnly cfg = true
  · obtain ⟨hkill, hpaper⟩ := hcounting
    have hrefused : ∀ f ∈ F, refusedAt calls db f = true := fun f hf =>
      (cycleLoop_raised hkill hpaper sources ids _ hn hrows hu f
        (raised f hf)).resolve_left List.not_mem_nil
    have hcount : ∀ pre d post, ids = pre ++ d :: post → d ∉ F →
        ((((runCycle pw cfg calls (ids.filter fun id => id ∉ F)
          (db.without F)).progress.view.signal d).map
          Signal.killSwitchDeferrals = ((runCycle pw cfg calls ids db).progress.view.signal d).map
          Signal.killSwitchDeferrals) ↔ (stale cfg calls db d = false →
            lost cfg calls db (post.filter fun id => id ∉ F) = lost cfg calls db post)) := by
      intro pre d post hsplit hd
      obtain ⟨s, hs, -⟩ := hrows d (hsplit ▸ List.mem_append_right _ List.mem_cons_self)
      rw [hsplit] at hn hrows hu hnF hrowsF huF ⊢
      rw [filter_split hd] at hnF hrowsF huF ⊢
      unfold runCycle
      rw [cycleLoop_count hkill hpaper sources hs pre _ hn hrows hu,
        cycleLoop_count hkill hpaper sources hs _ _ hnF hrowsF huF]
      cases stale cfg calls db d <;> cases lost cfg calls db post <;>
        cases lost cfg calls db (post.filter fun id => id ∉ F) <;> simp
    constructor
    · intro hsame hk hp pre d post hsplit hd hst
      have hlost := (hcount pre d post hsplit hd).mp (hsame d hd) hst
      exact (lost_filter_iff fun f _ hf => hrefused f hf).mp hlost
    · intro hkept d hd
      by_cases hmem : d ∈ ids
      · obtain ⟨pre, post, hsplit⟩ := List.append_of_mem hmem
        refine (hcount pre d post hsplit hd).mpr fun hst => ?_
        exact (lost_filter_iff fun f _ hf => hrefused f hf).mpr
          (hkept hkill hpaper pre d post hsplit hd hst)
      · unfold runCycle
        rw [cycleLoop_others hkill hpaper sources d ids _ hn hrows hu hmem,
          cycleLoop_others hkill hpaper sources d _ _ hnF hrowsF huF fun h =>
          hmem (List.mem_of_mem_filter h)]
        rw [hview, hview, ite_self, ite_self, without_signal hd]
  · refine ⟨fun _ hk hp => absurd ⟨hk, hp⟩ hcounting, fun _ d hd => ?_⟩
    rw [runCycle_uncounted hcounting, runCycle_uncounted hcounting, without_signal hd]

/-! ## Two cycles -/

theorem pendingList_of {db : Db} {ids : List Nat} (nodup : ids.Nodup)
    (rows : ∀ id ∈ ids, (db.signal id).map Signal.status = some .pending)
    (sources : (db.signals.map Signal.sourceTradeId).Nodup) : PendingList db ids := by
  refine ⟨nodup, fun id hid => ?_, sources⟩
  obtain ⟨s, hs, hstatus⟩ := Option.map_eq_some_iff.mp (rows id hid)
  exact ⟨s, hs, hstatus⟩

/-- Two BUYs whose review delay is over. -/
def twoDue : Db := (outcome liveSettings (enrol ++
  [.ingestTrade (sampleTrade 1 "a" 1 .buy 0),
    .ingestTrade (sampleTrade 2 "b" 1 .buy 0)] ++ startCycle)).db

/-- The book of the first cannot be read. -/
def firstUnread (id : Nat) : Call :=
  if id = 1 then { plainCall 30 with book := fun _ => .error .attributeError } else plainCall 30

theorem failing_signals_isolated_twoDue :
    SameOutside [1] ((runCycle natPow liveSettings firstUnread [1, 2] twoDue).persisted liveSettings)
      ((runCycle natPow liveSettings firstUnread [2] (twoDue.without [1])).persisted liveSettings) ∧
    ((runCycle natPow liveSettings firstUnread [1, 2] twoDue).persisted liveSettings).paperOrders.map
      PaperOrder.signalId = [2] := by
  have hpending : PendingList twoDue [1, 2] :=
    pendingList_of (by decide) (by decide +kernel) (by decide +kernel)
  have hiff := failing_signals_isolated_iff natPow liveSettings firstUnread twoDue [1, 2] [1]
    hpending (by decide +kernel)
  exact ⟨hiff.mpr fun hkill => (by cases hkill), by decide +kernel⟩

/-- Behind the kill switch: a recent BUY, and one that came in late and is
stale when its turn comes. -/
def lateBacklog : Db :=
  (outcome {} (enrol ++ [.tick 100, .ingestTrade (sampleTrade 1 "a" 1 .buy 100), .tick 50,
  .ingestTrade { sampleTrade 2 "b" 1 .buy 10 with ingestedAt := 150 }] ++ startCycle)).db

/-- The commit of the second's miss is refused. -/
def secondRefused (id : Nat) : Call :=
  if id = 2 then { plainCall 350 with dbRaises := true } else plainCall 350

/-- The count of the first is rolled back with the second. -/
theorem failing_signal_not_isolated :
    ¬ ∀ (pw : DecPow) (cfg : Settings) (calls : Nat →
      Call) (db : Db) (ids F : List Nat), PendingList db ids →
      (∀ id ∈ F, id ∈ (runCycle pw cfg calls ids db).errors) →
      SameOutside F ((runCycle pw cfg calls ids db).persisted cfg)
        ((runCycle pw cfg calls (ids.filter fun id => id ∉ F) (db.without F)).persisted cfg) := by
  intro h
  have hpending : PendingList lateBacklog [1, 2] :=
    pendingList_of (by decide) (by decide +kernel) (by decide +kernel)
  have hsame := h natPow {} secondRefused lateBacklog [1, 2] [2] hpending (by decide +kernel)
  have hrow := congrArg (Option.map Signal.killSwitchDeferrals) (hsame.signals 1 (by decide))
  exact absurd hrow (by decide +kernel)

end Polycopy
