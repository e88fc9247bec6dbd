import Polycopy.Schedule

/-!
# A signal is executed or skipped once

Status, order and log entry of a signal are written by one commit, and only
while the stored status is pending:

* pending: no order, no `signal_skipped` entry;
* executed: one order, filled or partial, no `signal_skipped` entry;
* skipped: one missed order and one `signal_skipped` entry with its reason.

`LifecycleOk` says so of every stored signal.  A signal that is no longer
pending keeps its row and its orders, and no later step is about it.
-/

namespace Polycopy

/-! ## What the tables hold about a signal -/

def ordersOf (db : Db) (id : Nat) : List PaperOrder :=
  db.paperOrders.filter fun o => o.signalId = id

/-- A `signal_skipped` entry about the signal. -/
def DecisionLogEntry.skips (id : Nat) (e : DecisionLogEntry) : Bool :=
  match e.decision with
  | .signalSkipped signalId _ _ => signalId = id
  | _ => false

def skipsOf (db : Db) (id : Nat) : List DecisionLogEntry :=
  db.decisionLog.filter fun e => e.skips id

def skipEntry (s : Signal) (reason : MissReason) : DecisionLogEntry :=
  ⟨"bot", .signalSkipped s.id s.sourceTradeId reason⟩

def Recorded (db : Db) (s : Signal) : Prop :=
  match s.status with
  | .pending => ordersOf db s.id = [] ∧ skipsOf db s.id = []
  | .executed => ∃ o, ordersOf db s.id = [o] ∧ o.isFill = true ∧ skipsOf db s.id = []
  | .skipped =>
    ∃ o reason, ordersOf db s.id = [o] ∧ o.status = .missed ∧ o.missReason = some reason ∧
      skipsOf db s.id = [skipEntry s reason]

structure LifecycleOk (db : Db) : Prop where
  recorded : ∀ s ∈ db.signals, Recorded db s
  owner : ∀ o ∈ db.paperOrders, ∃ s ∈ db.signals, o.signalId = s.id ∧
    o.idempotencyKey = idempotencyKey s
  skipper : ∀ id, skipsOf db id ≠ [] → ∃ s ∈ db.signals, s.id = id
  keys : (db.paperOrders.map PaperOrder.idempotencyKey).Nodup

theorem lifecycle_empty : LifecycleOk Db.empty :=
  ⟨fun _ h => (List.not_mem_nil h).elim, fun _ h => (List.not_mem_nil h).elim,
    fun _ h => absurd rfl h, List.nodup_nil⟩

/-! ## Writes about no signal -/

/-- All of a signal that its life turns on. -/
def Signal.stage (s : Signal) : Nat × String × SignalStatus := (s.id, s.sourceTradeId, s.status)

theorem mem_stage {db db' : Db}
    (h : db'.signals.map Signal.stage = db.signals.map Signal.stage) {s : Signal}
    (hs : s ∈ db.signals) :
    ∃ s' ∈ db'.signals, s'.id = s.id ∧ s'.sourceTradeId = s.sourceTradeId ∧
    s'.status = s.status := by
  have hm : s.stage ∈ db'.signals.map Signal.stage := h ▸ List.mem_map_of_mem hs
  obtain ⟨s', hs', he⟩ := List.mem_map.mp hm
  obtain ⟨h1, h2⟩ := Prod.mk.inj he
  obtain ⟨h2, h3⟩ := Prod.mk.inj h2
  exact ⟨s', hs', h1, h2, h3⟩

theorem recorded_congr {db db' : Db} {s s' : Signal} (hid : s'.id = s.id)
    (hsource : s'.sourceTradeId = s.sourceTradeId) (hstatus : s'.status = s.status)
    (horders : ordersOf db' s.id = ordersOf db s.id) (hskips : skipsOf db' s.id = skipsOf db s.id)
    (h : Recorded db s) : Recorded db' s' := by
  unfold Recorded skipEntry at *
  rw [hid, hsource, hstatus, horders, hskips]
  exact h

/-- No order, no skip, no change of status. -/
structure Quiet (db db' : Db) : Prop where
  stages : db'.signals.map Signal.stage = db.signals.map Signal.stage
  paperOrders : db'.paperOrders = db.paperOrders
  skips : ∀ id, skipsOf db' id = skipsOf db id

theorem Quiet.ordersOf {db db' : Db} (q : Quiet db db') (id : Nat) :
    ordersOf db' id = ordersOf db id := by
  unfold Polycopy.ordersOf
  rw [q.paperOrders]

theorem LifecycleOk.quiet {db db' : Db} (h : LifecycleOk db)
    (q : Quiet db db') : LifecycleOk db' := by
  refine ⟨?_, ?_, ?_, ?_⟩
  · intro s' hs'
    obtain ⟨s, hs, hid, hsource, hstatus⟩ := mem_stage q.stages.symm hs'
    exact recorded_congr hid.symm hsource.symm hstatus.symm (q.ordersOf _)
      (q.skips _) (h.recorded s hs)
  · intro o ho
    rw [q.paperOrders] at ho
    obtain ⟨s, hs, hid, hkey⟩ := h.owner o ho
    obtain ⟨s', hs', hid', hsource, -⟩ := mem_stage q.stages hs
    refine ⟨s', hs', hid.trans hid'.symm, hkey.trans ?_⟩
    unfold idempotencyKey
    rw [hsource]
  · intro id hne
    rw [q.skips] at hne
    obtain ⟨s, hs, hid⟩ := h.skipper id hne
    obtain ⟨s', hs', hid', -, -⟩ := mem_stage q.stages hs
    exact ⟨s', hs', hid'.trans hid⟩
  · rw [q.paperOrders]
    exact h.keys

theorem skipsOf_log (db : Db) (actor : String) (d : Decision) (id : Nat) :
    skipsOf (db.log actor d) id = skipsOf db id ++
      [(⟨actor, d⟩ : DecisionLogEntry)].filter fun e => e.skips id :=
  List.filter_append _ _

theorem skips_isBook {e : DecisionLogEntry} {id : Nat} (h : e.skips id = true) :
    e.decision.isBook = true := by
  unfold DecisionLogEntry.skips at h
  split at h
  · next he => rw [he]; rfl
  · cases h

theorem skipsOf_bookLog (db : Db) (id : Nat) :
    skipsOf db id = (bookLog db).filter fun e => e.skips id := by
  unfold skipsOf bookLog
  rw [List.filter_filter]
  apply List.filter_congr
  intro e _
  cases h : e.skips id with
  | false => rfl
  | true => rw [skips_isBook h]; rfl

theorem SameBooks.quiet {cfg : Settings} {db db' : Db}
    (h : SameBooks cfg db db') : Quiet db db' := by
  refine ⟨by rw [h.signals], h.paperOrders, fun id => ?_⟩
  rw [skipsOf_bookLog, skipsOf_bookLog, h.log]

theorem bumpDeferrals_quiet (db : Db) (id : Nat) :
    Quiet db { db with signals := bumpDeferrals id db.signals } :=
  ⟨bumpDeferrals_map Signal.stage id (fun _ _ => rfl) db.signals, rfl, fun _ => rfl⟩

theorem settlePosition_quiet (cfg : Settings) (now : Time) (db : Db)
    (p : Position) (st : Settlement) :
    Quiet db (settlePosition cfg now db (p, st)) := by
  rw [settlePosition_eq]
  exact ⟨rfl, rfl, fun id => (skipsOf_log _ _ _ _).trans (List.append_nil _)⟩

theorem postWithdrawal_quiet (cfg : Settings) (db : Db) (limit amount : ℚ) :
    Quiet db (postWithdrawal (withAccount cfg db) (accountOf cfg db) limit amount) :=
  ⟨rfl, rfl, fun _ => (skipsOf_log _ _ _ _).trans (List.append_nil _)⟩

/-! ## The writes about a signal -/

/-- The commit that ends a signal: one order of it, its status, its part of the log. -/
structure Ends (db : Db) (s : Signal) (o : PaperOrder) (status : SignalStatus)
    (entries : List DecisionLogEntry) (db' : Db) : Prop where
  orders : db'.paperOrders = db.paperOrders ++ [o]
  signalId : o.signalId = s.id
  key : o.idempotencyKey = idempotencyKey s
  signals : db'.signals = setStatus status s.id db.signals
  done : status ≠ .pending
  skips : ∀ id, skipsOf db' id = skipsOf db id ++ if id = s.id then entries else []

theorem Ends.ordersOf {db db' : Db} {s : Signal} {o : PaperOrder} {status : SignalStatus}
    {entries : List DecisionLogEntry} (e : Ends db s o status entries db') (id : Nat) :
    ordersOf db' id = ordersOf db id ++ if id = s.id then [o] else [] := by
  unfold Polycopy.ordersOf
  rw [e.orders, List.filter_append]
  by_cases h : id = s.id
  · simp [h, e.signalId]
  · have hne : ¬ s.id = id := fun he => h he.symm
    simp [h, hne, e.signalId]

theorem recordSkip_ends (cfg : Settings) (db : Db) (s : Signal) (reason : MissReason) (now : Time)
    (book : Option BookEvidence) :
    Ends db s (missedOrder cfg s reason now book) .skipped [skipEntry s reason]
      (recordSkip cfg db s reason now book) := by
  refine ⟨rfl, rfl, rfl, rfl, by decide, fun id => (skipsOf_log _ _ _ _).trans ?_⟩
  by_cases h : id = s.id
  · simp [DecisionLogEntry.skips, skipEntry, h, skipsOf]
  · have hne : ¬ s.id = id := fun he => h he.symm
    simp [DecisionLogEntry.skips, h, hne, skipsOf]

theorem commitFill_ends (cfg : Settings) (db : Db) (s : Signal)
    (now retrievedAt : Time) (fill : Fill) (snapshot : BookSnapshot) (fee : ℚ)
    (marketFee : MarketFee) :
    Ends db s (filledOrder cfg s now retrievedAt fill snapshot fee marketFee
        ((positionFor db s).fillDelta s.side fill fee)) .executed []
      (commitFill cfg db s now retrievedAt fill snapshot fee marketFee) := by
  rw [commitFill_eq]
  refine ⟨rfl, rfl, rfl, rfl, by decide, fun _ => (skipsOf_log _ _ _ _).trans ?_⟩
  rw [ite_self]
  rfl

theorem Held.mem {db : Db} {s : Signal} (h : Held db s) : s ∈ db.signals :=
  (Keyed.find_some Signal.id h.row).1

theorem mem_setStatus {status : SignalStatus} {id : Nat} {signals : List Signal} {s : Signal} :
    s ∈ setStatus status id signals ↔
      (∃ s' ∈ signals, s'.id = id ∧ s = { s' with status := status }) ∨ (s ∈ signals ∧ s.id ≠ id) :=
  Keyed.mem_update Signal.id

theorem LifecycleOk.pending {db : Db} {s : Signal} (h : LifecycleOk db) (held : Held db s) :
    Polycopy.ordersOf db s.id = [] ∧ skipsOf db s.id = [] := by
  have := h.recorded s held.mem
  unfold Recorded at this
  rw [held.pending] at this
  exact this

theorem LifecycleOk.ends {db db' : Db} {s : Signal} {o : PaperOrder} {status : SignalStatus}
    {entries : List DecisionLogEntry} (h : LifecycleOk db) (ht : Tables db) (held : Held db s)
    (e : Ends db s o status entries db')
    (after : Recorded db' { s with status := status }) : LifecycleOk db' := by
  have hs := held.mem
  obtain ⟨hnone, -⟩ := h.pending held
  have hstored : ∀ s' ∈ db.signals, ∃ s'' ∈ db'.signals, s''.id = s'.id ∧
      s''.sourceTradeId = s'.sourceTradeId := by
    intro s' hs'
    rw [e.signals]
    by_cases hid : s'.id = s.id
    · exact ⟨_, mem_setStatus.mpr (Or.inl ⟨s', hs', hid, rfl⟩), rfl, rfl⟩
    · exact ⟨s', mem_setStatus.mpr (Or.inr ⟨hs', hid⟩), rfl, rfl⟩
  refine ⟨?_, ?_, ?_, ?_⟩
  · intro s' hs'
    rw [e.signals] at hs'
    rcases mem_setStatus.mp hs' with ⟨s'', hs'', hid, rfl⟩ | ⟨hs', hid⟩
    · obtain rfl := Keyed.eq_of_key Signal.id ht.signalIds hs'' hs hid
      exact after
    · refine recorded_congr rfl rfl rfl ?_ ?_ (h.recorded s' hs')
      · rw [e.ordersOf, if_neg hid, List.append_nil]
      · rw [e.skips, if_neg hid, List.append_nil]
  · intro o' ho'
    rw [e.orders] at ho'
    have old : ∀ s' ∈ db.signals, o'.signalId = s'.id → o'.idempotencyKey = idempotencyKey s' →
        ∃ s'' ∈ db'.signals, o'.signalId = s''.id ∧ o'.idempotencyKey = idempotencyKey s'' := by
      intro s' hs' hid hkey
      obtain ⟨s'', hs'', hid', hsource⟩ := hstored s' hs'
      refine ⟨s'', hs'', hid.trans hid'.symm, hkey.trans ?_⟩
      unfold idempotencyKey
      rw [hsource]
    rcases List.mem_append.mp ho' with ho' | ho'
    · obtain ⟨s', hs', hid, hkey⟩ := h.owner o' ho'
      exact old s' hs' hid hkey
    · obtain rfl := List.mem_singleton.mp ho'
      exact old s hs e.signalId e.key
  · intro id hne
    rw [e.skips] at hne
    have hold : ∃ s' ∈ db.signals, s'.id = id := by
      by_cases hid : id = s.id
      · exact ⟨s, hs, hid.symm⟩
      · rw [if_neg hid, List.append_nil] at hne
        exact h.skipper id hne
    obtain ⟨s', hs', hid⟩ := hold
    obtain ⟨s'', hs'', hid', -⟩ := hstored s' hs'
    exact ⟨s'', hs'', hid'.trans hid⟩
  · -- an order with this key would be of a signal for the same trade, which is this one
    rw [e.orders]
    refine Keyed.nodup_snoc PaperOrder.idempotencyKey h.keys fun hm => ?_
    obtain ⟨o', ho', hkey⟩ := List.mem_map.mp hm
    obtain ⟨s', hs', hid, hkey'⟩ := h.owner o' ho'
    have hsource := idempotencyKey_inj ((hkey'.symm.trans hkey).trans e.key)
    obtain rfl := Keyed.eq_of_key Signal.sourceTradeId ht.sources hs' hs hsource
    have hmem : o' ∈ Polycopy.ordersOf db s'.id := List.mem_filter.mpr ⟨ho', decide_eq_true hid⟩
    rw [hnone] at hmem
    cases hmem

theorem LifecycleOk.effect {cfg : Settings} {db db' : Db} (ht : Tables db) (h : LifecycleOk db)
    (he : Effect cfg db db') : LifecycleOk db' := by
  cases he with
  | same hs => exact h.quiet hs.quiet
  | deferred id => exact h.quiet (bumpDeferrals_quiet db id)
  | settled p st now mem isOpen settlement => exact h.quiet (settlePosition_quiet cfg now db p st)
  | swept limit amount => exact h.quiet (postWithdrawal_quiet cfg db limit amount)
  | detected t new =>
    have hfresh := Keyed.fresh_not_mem Signal.id db.signals
    refine ⟨?_, ?_, ?_, h.keys⟩
    · intro s hs
      rcases List.mem_append.mp hs with hs | hs
      · exact h.recorded s hs
      · obtain rfl := List.mem_singleton.mp hs
        refine ⟨List.filter_eq_nil_iff.mpr fun o ho hid => ?_, ?_⟩
        · obtain ⟨s', hs', hid', -⟩ := h.owner o ho
          have hk : s'.id = Keyed.fresh Signal.id db.signals :=
          hid'.symm.trans (of_decide_eq_true hid)
          exact hfresh (hk ▸ List.mem_map_of_mem hs')
        · by_contra hne
          obtain ⟨s', hs', hid'⟩ := h.skipper _ hne
          have hk : s'.id = Keyed.fresh Signal.id db.signals := hid'
          exact hfresh (hk ▸ List.mem_map_of_mem hs')
    · intro o ho
      obtain ⟨s, hs, hid⟩ := h.owner o ho
      exact ⟨s, List.mem_append_left _ hs, hid⟩
    · intro id hne
      obtain ⟨s, hs, hid⟩ := h.skipper id hne
      exact ⟨s, List.mem_append_left _ hs, hid⟩
  | missed s reason now book held =>
    have e := recordSkip_ends cfg db s reason now book
    obtain ⟨ho, hk⟩ := h.pending held
    refine h.ends ht held e ⟨missedOrder cfg s reason now book, reason, ?_, rfl, rfl, ?_⟩
    · show Polycopy.ordersOf _ s.id = _
      rw [e.ordersOf, ho, if_pos rfl, List.nil_append]
    · show skipsOf _ s.id = _
      rw [e.skips, hk, if_pos rfl, List.nil_append]
      rfl
  | filled s plan now retrievedAt fill snapshot fee marketFee guard =>
    have e := commitFill_ends cfg db s now retrievedAt fill snapshot fee marketFee
    obtain ⟨ho, hk⟩ := h.pending guard.held
    have hfill := filledOrder_isFill guard now retrievedAt snapshot marketFee
      ((positionFor db s).fillDelta s.side fill fee)
    refine h.ends ht guard.held e ⟨_, ?_, hfill, ?_⟩
    · show Polycopy.ordersOf _ s.id = _
      rw [e.ordersOf, ho, if_pos rfl, List.nil_append]
    · show skipsOf _ s.id = _
      rw [e.skips, hk, if_pos rfl, List.nil_append]

theorem SysRun.lifecycle {pw : Py.DecPow} {tx : Py.Text} {cfg : Settings} {t0 : Time}
    {tr : List (Event × Sys)} {s : Sys} (h : SysRun pw tx cfg t0 tr s) : LifecycleOk s.db :=
  (h.books_inv (fun _ => True) (fun _ db => LifecycleOk db) lifecycle_empty
    (fun _ _ _ ht hi he => hi.effect ht he) (fun _ _ _ _ _ hi => hi) trivial fun _ _ => trivial).2

/-! ## A signal that is done stays done -/

/-- A stored signal with this status and these orders. -/
structure Kept (id : Nat) (status : SignalStatus) (orders : List PaperOrder) (db : Db) : Prop where
  row : ∃ s ∈ db.signals, s.id = id ∧ s.status = status
  orders : ordersOf db id = orders

theorem Kept.ne {id : Nat} {status : SignalStatus} {orders : List PaperOrder} {db : Db} {s : Signal}
    (h : Kept id status orders db) (hdone : status ≠ .pending) (ht : Tables db)
    (hs : s ∈ db.signals) (hp : s.status = .pending) : id ≠ s.id := by
  obtain ⟨s', hs', hid, hstatus⟩ := h.row
  intro he
  obtain rfl := Keyed.eq_of_key Signal.id ht.signalIds hs' hs (hid.trans he)
  exact hdone (hstatus.symm.trans hp)

theorem Kept.quiet {id : Nat} {status : SignalStatus} {orders : List PaperOrder} {db db' : Db}
    (h : Kept id status orders db) (q : Quiet db db') : Kept id status orders db' := by
  obtain ⟨s, hs, hid, hstatus⟩ := h.row
  obtain ⟨s', hs', hid', -, hstatus'⟩ := mem_stage q.stages hs
  exact ⟨⟨s', hs', hid'.trans hid, hstatus'.trans hstatus⟩, (q.ordersOf id).trans h.orders⟩

theorem Kept.ends {id : Nat} {status status' : SignalStatus}
    {orders : List PaperOrder} {db db' : Db} {s : Signal} {o : PaperOrder}
    {entries : List DecisionLogEntry} (h : Kept id status orders db)
    (e : Ends db s o status' entries db') (hne : id ≠ s.id) : Kept id status orders db' := by
  obtain ⟨s', hs', hid, hstatus⟩ := h.row
  refine ⟨⟨s', ?_, hid, hstatus⟩, ?_⟩
  · rw [e.signals]
    exact mem_setStatus.mpr (Or.inr ⟨hs', fun he => hne (hid.symm.trans he)⟩)
  · rw [e.ordersOf, if_neg hne, List.append_nil]
    exact h.orders

theorem Kept.effect {id : Nat} {status : SignalStatus} {orders : List PaperOrder}
    {cfg : Settings} {db db' : Db} (h : Kept id status orders db) (hdone : status ≠ .pending)
    (ht : Tables db) (he : Effect cfg db db') :
    Kept id status orders db' := by
  cases he with
  | same hs => exact h.quiet hs.quiet
  | deferred id' => exact h.quiet (bumpDeferrals_quiet db id')
  | settled p st now mem isOpen settlement => exact h.quiet (settlePosition_quiet cfg now db p st)
  | swept limit amount => exact h.quiet (postWithdrawal_quiet cfg db limit amount)
  | detected t new =>
    obtain ⟨s, hs, hid⟩ := h.row
    exact ⟨⟨s, List.mem_append_left _ hs, hid⟩, h.orders⟩
  | missed s reason now book held =>
    exact h.ends (recordSkip_ends cfg db s reason now book) (h.ne hdone ht held.mem held.pending)
  | filled s plan now retrievedAt fill snapshot fee marketFee guard =>
    exact h.ends (commitFill_ends cfg db s now retrievedAt fill snapshot fee marketFee)
      (h.ne hdone ht guard.held.mem guard.held.pending)

theorem Kept.run {pw : Py.DecPow} {tx : Py.Text} {id : Nat}
    {status : SignalStatus} {orders : List PaperOrder} {s u : Sys} {tr : List (Event × Sys)}
    (h : Kept id status orders s.db) (hdone : status ≠ .pending)
    (ok : SysOk s) (hr : Runs.Run (Step pw tx) s tr u) : SysOk u ∧ Kept id status orders u.db := by
  refine hr.inv (fun s => SysOk s ∧ Kept id status orders s.db) ?_ ⟨ok, h⟩
  rintro s e t ⟨ok, hk⟩ hs
  exact ⟨hs.ok ok, ((hs.effects ok).inv (fun _ _ ht hi he => hi.effect hdone ht he) ok.tables hk).2⟩

/-! ## What a step writes, and about which signal -/

/-- The order a step writes and the positions it changes are not about the signal `id`: there are
none, or a settlement pass pays out, or they are the order of one other signal, still pending,
and, for a fill, the position that one trades. -/
inductive Cause (id : Nat) (s : Sys) (e : Event) (t : Sys) : Prop
  | none (orders : t.db.paperOrders = s.db.paperOrders) (positions : t.db.positions = s.db.positions)
  | settled (event : e = .settle) (orders : t.db.paperOrders = s.db.paperOrders)
  | signal (sig : Signal) (o : PaperOrder) (mem : sig ∈ s.db.signals)
      (pending : sig.status = .pending)
      (other : id ≠ sig.id) (order : o.signalId = sig.id)
        (orders : t.db.paperOrders = s.db.paperOrders ++ [o])
      (missed : o.isFill = false → t.db.positions = s.db.positions)
      (others : ∀ key, key ≠ sig.positionKey → t.db.position key = s.db.position key)

/-- What of a stored signal a deferral leaves alone. -/
def Signal.base (s : Signal) : Nat × SignalStatus × (Nat × Nat × String) :=
  (s.id, s.status, s.positionKey)

theorem held_stored {s : Sys} {sig : Signal} (held : Held s.view sig) :
    ∃ sig' ∈ s.db.signals, sig'.id = sig.id ∧ sig'.status = .pending ∧
    sig'.positionKey = sig.positionKey := by
  have hm : sig.base ∈ s.db.signals.map Signal.base := 
    view_signals Signal.base (fun _ _ => rfl) s.session s.db ▸ List.mem_map_of_mem held.mem
  obtain ⟨sig', hs', he⟩ := List.mem_map.mp hm
  obtain ⟨h1, h2⟩ := Prod.mk.inj he
  obtain ⟨h2, h3⟩ := Prod.mk.inj h2
  exact ⟨sig', hs', h1, h2.trans held.pending, h3⟩

/-- No stored pending signal has the number. -/
def NotPending (id : Nat) (s : Sys) : Prop :=
  ∀ sig ∈ s.db.signals, sig.status = .pending → id ≠ sig.id

theorem skip_cause {id : Nat} {s t : Sys} {e : Event} {sig : Signal} {o : PaperOrder}
    (done : NotPending id s) (held : Held s.view sig) (hid : o.signalId = sig.id)
    (horders : t.db.paperOrders = s.db.paperOrders ++ [o])
    (hpos : t.db.positions = s.db.positions) : Cause id s e t := by
  obtain ⟨sig', hs', hid', hp, -⟩ := held_stored held
  refine .signal sig' o hs' hp (done sig' hs' hp) (hid.trans hid'.symm) horders
    (fun _ => hpos) fun key _ => ?_
  unfold Db.position
  rw [hpos]

theorem fill_cause {id : Nat} {s : Sys} {e : Event} {sig : Signal} (done : NotPending id s)
    (held : Held s.view sig) (plan : Plan) (now retrievedAt : Time) (fill : Fill)
    (snapshot : BookSnapshot) (fee : ℚ) (marketFee : MarketFee) (pc : Pc)
    (guard : FillGuard s.cfg s.view sig plan fill fee) :
    Cause id s e
      (s.commit (commitFill s.cfg s.view sig now retrievedAt fill snapshot fee marketFee) pc) := by
  obtain ⟨sig', hs', hid', hp, hkey⟩ := held_stored held
  have hfill := filledOrder_isFill guard now retrievedAt snapshot marketFee
    ((positionFor s.view sig).fillDelta sig.side fill fee)
  refine .signal sig' _ hs' hp (done sig' hs' hp) hid'.symm
    (commitFill_ends s.cfg s.view sig now retrievedAt fill snapshot fee
    marketFee).orders (fun hne => ?_) fun key hk => ?_
  · rw [hfill] at hne
    cases hne
  · rw [hkey] at hk
    show (commitFill _ _ _ _ _ _ _ _ _).position key = s.db.position key
    rw [commitFill_eq]
    show Keyed.find Position.key key (Keyed.put Position.key _ s.db.positions) = _
    rw [Keyed.find_put, fill_key, positionFor_key, if_neg fun he => hk he.symm]
    rfl

theorem Step.cause {pw : Py.DecPow} {tx : Py.Text} {id : Nat} {s t : Sys} {e : Event} (ok : SysOk s)
    (h : Step pw tx s e t) (done : NotPending id s) : Cause id s e t := by
  cases h with
  | tick d h => exact .none rfl rfl
  | crash cfg => exact .none rfl rfl
  | elsewhere _ db h lock => exact .none h.same.paperOrders h.same.positions
  | bot _ _ h =>
    cases h with
    | detect rows pc paper query =>
      obtain ⟨ho, hp, -⟩ := detectSignals_orders rows s.db
      exact .none ho hp
    | settle startedAt rows pc query =>
      exact .settled rfl (settlePaperPositions_orders s.cfg startedAt rows s.db).1
    | skip _ rest deferred sig reason db pc ready gates =>
      have hsame := gates_effects (executeGates_skip gates)
      refine skip_cause done ready.held
        (o := missedOrder s.cfg sig reason s.clock none) rfl ?_ hsame.positions
      show db.paperOrders ++ _ = _
      rw [hsame.paperOrders]
      rfl
    | bookSkip b f book reason evidence pc response =>
      exact skip_cause done (ok.held f (by rw [pc]; rfl)) rfl rfl rfl
    | feeSkip b f fill snapshot feeInfo reason pc response =>
      exact skip_cause done (ok.held f (by rw [pc]; rfl)) rfl rfl rfl
    | feeFill b f fill snapshot feeInfo fee marketFee pc response =>
      have hf : s.pc.flight = some f := by rw [pc]; rfl
      obtain ⟨hwalk, htraded⟩ := ok.walk b f fill snapshot pc
      obtain ⟨hfee, hgates⟩ := afterFee_fill response
      exact fill_cause done (ok.held f hf) f.plan _ _ _ _ _ _ _
        ⟨ok.held f hf, ok.side f hf, hwalk, htraded, hfee, hgates, ok.opened f hf⟩
    | finishDeferred pc => exact .none rfl rfl
    | sweep pc =>
      by_cases hpos : 0 < (sweepProfitIfDue s.cfg s.view).2
      · rcases sweepProfitIfDue_cases s.cfg s.view with h0 | ⟨limit, hp, hl, hpile, hfree, -, heq⟩
        · rw [h0] at hpos; exact absurd hpos (lt_irrefl 0)
        · rw [if_pos hpos, heq]
          exact .none rfl rfl
      · rw [if_neg hpos]
        exact .none rfl rfl
    | select | passOver | stop | defer | request | bookFill | raisedGates | raisedBook | raisedFee
    | finish => exact .none rfl rfl

/-! ## The theorem -/

/-- Status, orders and log of a signal, each read off the others. -/
structure OneOutcome (db : Db) (s : Signal) : Prop where
  at_most_one : (ordersOf db s.id).length ≤ 1
  key : ∀ o ∈ ordersOf db s.id, o.idempotencyKey = idempotencyKey s
  pending : s.status = .pending ↔ ordersOf db s.id = []
  executed : s.status = .executed ↔ ∃ o, ordersOf db s.id = [o] ∧ o.isFill = true
  skipped : s.status = .skipped ↔ ∃ o reason, ordersOf db s.id = [o] ∧ o.status = .missed ∧
    o.missReason = some reason ∧ skipsOf db s.id = [skipEntry s reason]

theorem missed_not_fill {o : PaperOrder} (h : o.status = .missed) : o.isFill = false := by
  unfold PaperOrder.isFill
  rw [h]
  rfl

theorem LifecycleOk.oneOutcome {db : Db} (h : LifecycleOk db) (ht : Tables db)
    {s : Signal} (hs : s ∈ db.signals) :
    OneOutcome db s := by
  have hkey : ∀ o ∈ Polycopy.ordersOf db s.id, o.idempotencyKey = idempotencyKey s := by
    intro o ho
    obtain ⟨hm, hid⟩ := List.mem_filter.mp ho
    obtain ⟨s', hs', hid', hk⟩ := h.owner o hm
    obtain rfl := Keyed.eq_of_key Signal.id ht.signalIds hs hs'
      ((of_decide_eq_true hid).symm.trans hid')
    exact hk
  have hrec := h.recorded s hs
  unfold Recorded at hrec
  cases hst : s.status with
  | pending =>
    rw [hst] at hrec
    obtain ⟨ho, -⟩ := hrec
    refine ⟨by rw [ho]; exact Nat.zero_le 1, hkey, ?_, ?_, ?_⟩ <;> simp [ho, hst]
  | executed =>
    rw [hst] at hrec
    obtain ⟨o, ho, hfill, -⟩ := hrec
    refine ⟨by rw [ho]; exact le_refl 1, hkey, by simp [ho, hst], by simp [ho, hst, hfill], ?_⟩
    constructor
    · intro he
      rw [hst] at he
      cases he
    · rintro ⟨o', reason, ho', hm, -, -⟩
      obtain rfl := List.singleton_inj.mp (ho.symm.trans ho')
      rw [missed_not_fill hm] at hfill
      cases hfill
  | skipped =>
    rw [hst] at hrec
    obtain ⟨o, reason, ho, hm, hr, hk⟩ := hrec
    refine ⟨by rw [ho]; exact le_refl 1, hkey, by simp [ho, hst], ?_, ?_⟩
    · simp [ho, hst, missed_not_fill hm]
    · exact ⟨fun _ => ⟨o, reason, ho, hm, hr, hk⟩, fun _ => hst⟩

/-- In every state of every run: one signal a trade, at most one order a signal, and status, order
and log of each signal agree.  A signal that is done keeps its status and its orders in all that
follows, and whatever a later step writes is not about it. -/
theorem signal_lifecycle (pw : Py.DecPow) (tx : Py.Text) (cfg : Settings) (t0 : Time)
    (tr : List (Event × Sys)) (s : Sys) (h : SysRun pw tx cfg t0 tr s) :
    (s.db.signals.map Signal.sourceTradeId).Nodup ∧
    (s.db.paperOrders.map PaperOrder.idempotencyKey).Nodup ∧
    (∀ sig ∈ s.db.signals, OneOutcome s.db sig) ∧
    ∀ sig ∈ s.db.signals, sig.status ≠ .pending → ∀ tr' u, Runs.Run (Step pw tx) s tr' u →
      Kept sig.id sig.status (ordersOf s.db sig.id) u.db ∧
      ∀ e v, Step pw tx u e v → Cause sig.id u e v := by
  have hlife := h.lifecycle
  refine ⟨h.ok.tables.sources, hlife.keys, fun sig hs => hlife.oneOutcome h.ok.tables hs, ?_⟩
  intro sig hs hdone tr' u hr
  obtain ⟨ok, hkept⟩ := Kept.run ⟨⟨sig, hs, rfl, rfl⟩, rfl⟩ hdone h.ok hr
  exact ⟨hkept, fun e v hstep => hstep.cause ok fun sig' hs' hp => hkept.ne hdone ok.tables hs' hp⟩

/-- One trade filled, one skipped behind a closed market. -/
def fillAndSkip : List Command :=
  enrol ++ [.ingestTrade (sampleTrade 1 "a" 1 .buy 0), .ingestTrade (sampleTrade 2 "b" 1 .sell 0)] ++
    startCycle ++ [.tick 30] ++ fillNext "0.5" noFee ++ [.resolve 1 "Yes", .begin] ++ endCycle

theorem signal_lifecycle_fillAndSkip :
    (outcome liveSettings fillAndSkip).db.signals.map Signal.status = [.executed, .skipped] ∧
    ∀ sig ∈ (outcome liveSettings fillAndSkip).db.signals,
    OneOutcome (outcome liveSettings fillAndSkip).db sig :=
  ⟨by decide +kernel, (signal_lifecycle _ _ _ _ _ _ (history_run (by decide +kernel))).2.2.1⟩

end Polycopy
