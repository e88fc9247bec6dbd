import Polycopy.Books.Audit
import Polycopy.Shadow.Drain

/-!
# The decisions of the bot, exported

`SourceAdapter.scan` joins trades, signals, orders and the decision log of the database
the bot writes, and refuses an order whose audit is missing or says something else. A
drain scans while the bot runs on.

* `scan_ok`: in every state of every run the scan finds one audit for each order, and
  with the ids of an earlier scan it finds the trades of that scan, with the decisions
  of that scan and what the bot has decided since (`scan_later`).
* `bot_drains`: so a drain over the running bot never fails by itself, and completes
  just where the bot has decided on every trade of the population.
-/

namespace Polycopy.Comparison

open Py Py.Clock Runs

/-! ## The queries -/

/-- How columns come back: the `datetime` of a time, in the zone of the session, the text of a
number, the JSON of a context; and `created_at` of the rows of `decision_log`, by their ids. -/
structure Columns where
  datetime : Time → Stamp
  size : ℚ → String
  asset : Option String → String
  side : Side → String
  context : Polycopy.Decision → String
  createdAt : Nat → Stamp

/-- `clock` of a column. -/
def Columns.utc (col : Columns) (t : Time) : String := (col.datetime t).utc

def Columns.createdUtc (col : Columns) (id : Nat) : String := (col.createdAt id).utc

/-- A row of `trades` with what is read of its wallet and market. -/
structure Row where
  trade : Trade
  address : String
  conditionId : String

/-- The joins, and the predicate, which compares instants. -/
def joinRow (b : Binding) (start stop : Int) (frozenIds : Option (List Nat)) (db : Db)
    (t : Trade) : Option Row := do
  let w ← db.wallet t.walletId
  let m ← db.market t.marketId
  if w.address ∈ b.cohort ∧ start ≤ t.ingestedAt * 1000000 ∧ t.ingestedAt * 1000000 ≤ stop ∧
    ∀ ids ∈ frozenIds, t.id ∈ ids then
    some ⟨t, w.address, m.conditionId⟩
  else none

/-- `ORDER BY t.id`. -/
def selectRows (b : Binding) (start stop : Int)
    (frozenIds : Option (List Nat)) (db : Db) : List Row :=
  (db.trades.filterMap (joinRow b start stop frozenIds db)).insertionSort fun r r' =>
    r.trade.id ≤ r'.trade.id

def Columns.fact (col : Columns) (r : Row) : TradeFact where
  sourceRecordId := r.trade.id
  sourceEventId := r.trade.polymarketTradeId
  wallet := r.address
  asset := col.asset r.trade.assetId
  conditionId := r.conditionId
  side := col.side r.trade.side
  originalSize := col.size r.trade.size
  tradedAtUtc := some (col.utc r.trade.tradedAt)
  ingestedUtc := col.utc r.trade.ingestedAt

def membershipError : String := "SQL/exact timestamp membership disagreement"
def cohortError : String := "exact five-wallet cohort required"
def duplicateIdsError : String := "duplicate frozen source IDs"
def linkageError : String := "missing/conflicting original decision audit linkage"
def mismatchError : String := "original decision audit linkage/action mismatch"
def ambiguousError : String := "ambiguous original decision linkage"

/-- The clock of each row, read back. -/
def checkMembers (window : Py.Clock.Window) : List TradeFact → Except String Unit
  | [] => .ok ()
  | t :: rest => do
    let inside ← inWindow t.ingestedUtc window
    raiseIf (inside = false) membershipError
    checkMembers window rest

/-- The condition of the `LEFT JOIN`. -/
def linksTo (s : Signal) (e : DecisionLogEntry) : Bool :=
  e.decision.audit.any fun a => a.2.1 = s.id ∧ a.2.2 = s.sourceTradeId

/-- The rows of the log it finds for a signal, with their ids. -/
def auditRows (db : Db) (s : Signal) : List (DecisionLogEntry × Nat) :=
  (db.decisionLog.zipIdx 1).filter fun e => linksTo s e.1

/-- Each row of the right side, or a row of nulls. -/
def leftJoin {α : Type} : List α → List (Option α)
  | [] => [none]
  | a :: l => (a :: l).map some

/-- The rows of one order for one trade, which `grouped` puts together: the key
of a trade is unique. -/
def orderRows (db : Db) (t : Trade) (o : PaperOrder) :
    List (Signal × Option (DecisionLogEntry × Nat)) :=
  (db.signals.filter fun s => s.sourceTradeId = t.polymarketTradeId ∧
    o.signalId = s.id).flatMap fun s =>
    (leftJoin (auditRows db s)).map fun e => (s, e)

def Columns.decision (col : Columns) (t : Trade) (o : PaperOrder × Nat) (signalId : Nat)
    (e : DecisionLogEntry × Nat) (action : String) : Decision where
  sourceEventId := t.polymarketTradeId
  paperRecordId := o.2
  signalRecordId := some signalId
  decisionUtc := some (col.utc o.1.t2DecidedAt)
  rejectionReason := o.1.missReason.map MissReason.text
  sourceIngestedUtc := col.utc t.ingestedAt
  sourceAudit := some ⟨e.2, action, col.createdUtc e.2, col.context e.1.decision⟩

/-- One turn of the loop over `grouped`; an order without a row is in no group. -/
def Columns.group (col : Columns) (db : Db) (t : Trade) (o : PaperOrder × Nat) :
    Except String (Option Decision) :=
  match orderRows db t o.1 with
  | [] => .ok none
  | [(s, some e)] =>
    match e.1.decision.audit with
    | none => .error mismatchError
    | some (action, signalId, sourceTradeId) => do
      raiseIf (action ≠ o.1.action ∨ signalId ≠ s.id ∨
        sourceTradeId ≠ t.polymarketTradeId) mismatchError
      .ok (some (col.decision t o s.id e action))
  | _ => .error linkageError

def collect {α β : Type} (f : α → Except String (Option β)) : List α → Except String (List β)
  | [] => .ok []
  | a :: l => do
    let b ← f a
    let rest ← collect f l
    .ok (b.toList ++ rest)

/-- The trades and orders, `ORDER BY t.id, p.id`. -/
def orderPairs (db : Db) (rows : List Row) : List (Row × PaperOrder × Nat) :=
  rows.flatMap fun r => (db.paperOrders.zipIdx 1).map fun o => (r, o)

/-- `scan` of a PostgreSQL source. -/
def Columns.scan (col : Columns) (b : Binding) (frozenIds : Option (List Nat)) (db : Db) :
    Except String (List TradeFact × List Decision) := do
  raiseIf (b.cohort.length ≠ 5 ∨ ¬ b.cohort.Nodup) cohortError
  let start ← epochMicros b.window.startUtc
  let stop ← epochMicros b.window.endUtc
  raiseIf (∃ ids ∈ frozenIds, ¬ ids.Nodup) duplicateIdsError
  let rows := selectRows b start stop frozenIds db
  checkMembers b.window (rows.map col.fact)
  let decisions ← collect (fun p => col.group db p.1.trade p.2) (orderPairs db rows)
  raiseIf (¬ (decisions.map Decision.sourceEventId).Nodup) ambiguousError
  .ok (rows.map col.fact, decisions)

/-! ## One audit for each order -/

/-- The database the scan can read. -/
structure Exportable (db : Db) : Prop where
  tables : Tables db
  audits : AuditOk db
  tradeIds : (db.trades.map Trade.id).Nodup
  tradeKeys : (db.trades.map Trade.polymarketTradeId).Nodup
  orders : (db.paperOrders.map PaperOrder.signalId).Nodup

/-- The order, its signal and its audit. -/
structure Link (db : Db) (t : Trade) (o : PaperOrder × Nat) (signalId : Nat)
    (e : DecisionLogEntry × Nat) : Prop where
  signal : (signalId, t.polymarketTradeId) ∈ db.signals.map Signal.source
  order : o ∈ db.paperOrders.zipIdx 1
  owner : o.1.signalId = signalId
  entry : e ∈ db.decisionLog.zipIdx 1
  audit : e.1.decision.audit = some (o.1.action, signalId, t.polymarketTradeId)

theorem filter_zipIdx {α : Type} (p : α → Bool) (l : List α) (n : Nat) :
    ((l.zipIdx n).filter fun a => p a.1).map Prod.fst = l.filter p := by
  induction l generalizing n with
  | nil => rfl
  | cons a l ih =>
    rw [List.zipIdx_cons]
    by_cases h : p a = true <;> simp [h, ih]

theorem mem_of_zipIdx {α : Type} {l : List α} {n : Nat} {a : α × Nat}
    (h : a ∈ l.zipIdx n) : a.1 ∈ l := by
  have hmem : a.1 ∈ (l.zipIdx n).map Prod.fst := List.mem_map_of_mem h
  rwa [List.zipIdx_map_fst] at hmem

/-- A signal that is done has the one row of its audit. -/
theorem auditRows_eq {db : Db} {s : Signal} {e : DecisionLogEntry} {action : String}
    (haudits : auditsOf db s.id = [e])
    (haudit : e.decision.audit = some (action, s.id, s.sourceTradeId)) :
    ∃ j, auditRows db s = [(e, j)] := by
  have hlinks : linksTo s e = true := by
    unfold linksTo
    rw [haudit]
    simp
  have hmap : (auditRows db s).map Prod.fst = [e] := by
    unfold auditRows
    rw [filter_zipIdx (linksTo s)]
    have hfilter : db.decisionLog.filter (linksTo s) = (auditsOf db s.id).filter (linksTo s) := by
      unfold auditsOf
      rw [List.filter_filter]
      apply List.filter_congr
      intro e' _
      unfold linksTo DecisionLogEntry.audits
      cases e'.decision.audit with
      | none => rfl
      | some a => by_cases hid : a.2.1 = s.id <;> simp [hid]
    rw [hfilter, haudits, List.filter_singleton, hlinks]
    rfl
  obtain ⟨x, hx, hfst⟩ := List.map_eq_singleton_iff.mp hmap
  exact ⟨x.2, by rw [hx, ← hfst]⟩

/-- The order of a signal of the trade, with its one audit, or nothing. -/
theorem orderRows_cases {db : Db} (h : Exportable db) (t : Trade)
    {o : PaperOrder} (ho : o ∈ db.paperOrders) :
    (orderRows db t o = [] ∧ (o.signalId, t.polymarketTradeId) ∉ db.signals.map Signal.source) ∨
      ∃ s e, orderRows db t o = [(s, some e)] ∧ s.id = o.signalId ∧
        (s.id, t.polymarketTradeId) ∈ db.signals.map Signal.source ∧
        e ∈ db.decisionLog.zipIdx 1 ∧ e.1.decision.audit =
          some (o.action, s.id, t.polymarketTradeId) := by
  obtain ⟨s, hs, hid⟩ := h.audits.owner o ho
  have hfilter : (db.signals.filter fun s => s.sourceTradeId = t.polymarketTradeId ∧
      o.signalId = s.id) =
      [s].filter fun s => s.sourceTradeId = t.polymarketTradeId := by
    have hkey : (db.signals.filter fun s' => s'.id = s.id) = [s] := by
      rw [Keyed.filter_key Signal.id s.id h.tables.signalIds,
        Keyed.find_of_mem Signal.id h.tables.signalIds hs]
      rfl
    rw [← hkey, List.filter_filter]
    apply List.filter_congr
    intro s' _
    rw [← hid, Bool.decide_and, decide_eq_decide.mpr (eq_comm (a := s.id) (b := s'.id))]
  unfold orderRows
  rw [hfilter]
  by_cases hsource : s.sourceTradeId = t.polymarketTradeId
  · right
    have hmem : o ∈ ordersOf db s.id := List.mem_filter.mpr ⟨ho, decide_eq_true hid.symm⟩
    obtain ⟨-, horders, -⟩ | ⟨-, o', e, horders, haudits, haudit⟩ := h.audits.audited s hs
    · rw [horders] at hmem
      cases hmem
    · rw [horders] at hmem
      obtain rfl := List.mem_singleton.mp hmem
      obtain ⟨j, hj⟩ := auditRows_eq haudits haudit
      have hentry : (e, j) ∈ db.decisionLog.zipIdx 1 := by
        have hin : (e, j) ∈ auditRows db s := hj ▸ List.mem_singleton_self _
        exact (List.mem_filter.mp hin).1
      refine ⟨s, (e, j), ?_, hid, ?_, hentry, ?_⟩
      · rw [List.filter_singleton, decide_eq_true hsource, cond_true, List.flatMap_singleton, hj]
        rfl
      · exact List.mem_map.mpr ⟨s, hs, Prod.ext rfl hsource⟩
      · rw [← hsource]
        exact haudit
  · left
    rw [List.filter_singleton, decide_eq_false hsource]
    refine ⟨rfl, fun hmem => ?_⟩
    obtain ⟨s', hs', hsame⟩ := List.mem_map.mp hmem
    obtain ⟨hid', hsource'⟩ := Prod.mk.inj hsame
    obtain rfl := Keyed.eq_of_key Signal.id h.tables.signalIds hs hs' (hid.trans hid'.symm)
    exact hsource hsource'

/-- A group raises nothing, and is a decision where the order is of a signal of the trade. -/
theorem group_ok (col : Columns) {db : Db} (h : Exportable db) (t : Trade) {o : PaperOrder × Nat}
    (ho : o ∈ db.paperOrders.zipIdx 1) :
    (col.group db t o = .ok none ∧ ∀ signalId e, ¬ Link db t o signalId e) ∨
      ∃ signalId e, Link db t o signalId e ∧
      col.group db t o = .ok (some (col.decision t o signalId e o.1.action)) := by
  unfold Columns.group
  rcases orderRows_cases h t (mem_of_zipIdx ho) with
    ⟨hrows, hnone⟩ | ⟨s, e, hrows, hid, hsignal, hentry, haudit⟩
  · left
    rw [hrows]
    refine ⟨rfl, fun signalId e hlink => hnone ?_⟩
    rw [hlink.owner]
    exact hlink.signal
  · right
    refine ⟨s.id, e, ⟨hsignal, ho, hid.symm, hentry, haudit⟩, ?_⟩
    rw [hrows]
    simp only [haudit]
    unfold raiseIf
    rw [if_neg (by simp)]
    rfl

/-- An order of a trade has one signal and one audit. -/
theorem Link.unique {db : Db} (h : Exportable db) {t : Trade} {o : PaperOrder × Nat}
    {signalId signalId' : Nat} {e e' : DecisionLogEntry × Nat} (hl : Link db t o signalId e)
    (hl' : Link db t o signalId' e') :
    signalId = signalId' ∧ e = e' := by
  obtain rfl : signalId = signalId' := hl.owner.symm.trans hl'.owner
  refine ⟨rfl, ?_⟩
  obtain ⟨s, hs, hsource⟩ := List.mem_map.mp hl.signal
  obtain ⟨rfl, hkey⟩ := Prod.mk.inj hsource
  have hmem : o.1 ∈ ordersOf db s.id :=
    List.mem_filter.mpr ⟨mem_of_zipIdx hl.order, decide_eq_true hl.owner⟩
  obtain ⟨-, horders, -⟩ | ⟨-, o', x, -, haudits, haudit⟩ := h.audits.audited s hs
  · rw [horders] at hmem
    cases hmem
  · obtain ⟨j, hj⟩ := auditRows_eq haudits haudit
    have hin : ∀ {y : DecisionLogEntry × Nat}, Link db t o s.id y → y = (x, j) := by
      intro y hy
      have hrow : y ∈ auditRows db s := by
        refine List.mem_filter.mpr ⟨hy.entry, ?_⟩
        unfold linksTo
        rw [hy.audit]
        simpa using hkey.symm
      rw [hj] at hrow
      exact List.mem_singleton.mp hrow
    rw [hin hl, hin hl']

/-! ## The scan -/

theorem collect_ok {α β : Type} {f : α → Except String (Option β)} {l : List α}
    (h : ∀ a ∈ l, ∃ r, f a = .ok r) :
    collect f l = .ok (l.filterMap fun a => (f a).toOption.join) := by
  induction l with
  | nil => rfl
  | cons a l ih =>
    obtain ⟨r, hr⟩ := h a List.mem_cons_self
    unfold collect
    rw [hr, ih fun b hb => h b (List.mem_cons_of_mem _ hb), List.filterMap_cons, hr]
    cases r <;> rfl

/-- The decisions of the rows. -/
def Columns.decisions (col : Columns) (db : Db) (rows : List Row) : List Decision :=
  (orderPairs db rows).filterMap fun p => (col.group db p.1.trade p.2).toOption.join

theorem mem_orderPairs {db : Db} {rows : List Row} {p : Row × PaperOrder × Nat} :
    p ∈ orderPairs db rows ↔ p.1 ∈ rows ∧ p.2 ∈ db.paperOrders.zipIdx 1 := by
  unfold orderPairs
  simp only [List.mem_flatMap, List.mem_map]
  constructor
  · rintro ⟨r, hr, o, ho, rfl⟩
    exact ⟨hr, ho⟩
  · rintro ⟨hr, ho⟩
    exact ⟨p.1, hr, p.2, ho, rfl⟩

theorem group_join {col : Columns} {db : Db} (h : Exportable db) {t : Trade} {o : PaperOrder × Nat}
    (ho : o ∈ db.paperOrders.zipIdx 1)
    {d : Decision} : (col.group db t o).toOption.join = some d ↔
      ∃ signalId e, Link db t o signalId e ∧ d = col.decision t o signalId e o.1.action := by
  rcases group_ok col h t ho with ⟨hgroup, hnone⟩ | ⟨signalId, e, hlink, hgroup⟩
  · rw [hgroup]
    exact ⟨nofun, fun ⟨signalId, e, hlink, _⟩ => absurd hlink (hnone signalId e)⟩
  · rw [hgroup]
    constructor
    · intro hd
      exact ⟨signalId, e, hlink, (Option.some.inj hd).symm⟩
    · rintro ⟨signalId', e', hlink', rfl⟩
      obtain ⟨rfl, rfl⟩ := hlink.unique h hlink'
      rfl

/-- The decision on a trade is that of the order of its signal. -/
theorem mem_decisions {col : Columns} {db : Db} (h : Exportable db)
    {rows : List Row} {d : Decision} :
    d ∈ col.decisions db rows ↔ ∃ r ∈ rows, ∃ o signalId e, Link db r.trade o signalId e ∧
    d = col.decision r.trade o signalId e o.1.action := by
  unfold Columns.decisions
  rw [List.mem_filterMap]
  constructor
  · rintro ⟨p, hp, hd⟩
    obtain ⟨hr, ho⟩ := mem_orderPairs.mp hp
    obtain ⟨signalId, e, hlink, hdecision⟩ := (group_join h ho).mp hd
    exact ⟨p.1, hr, p.2, signalId, e, hlink, hdecision⟩
  · rintro ⟨r, hr, o, signalId, e, hlink, hdecision⟩
    exact ⟨(r, o), mem_orderPairs.mpr ⟨hr, hlink.order⟩,
      (group_join h hlink.order).mpr ⟨signalId, e, hlink, hdecision⟩⟩

theorem source_unique {db : Db} (h : Tables db) {id id' : Nat} {source : String}
    (hid : (id, source) ∈ db.signals.map Signal.source)
    (hid' : (id', source) ∈ db.signals.map Signal.source) : id = id' := by
  obtain ⟨s, hs, hsource⟩ := List.mem_map.mp hid
  obtain ⟨s', hs', hsource'⟩ := List.mem_map.mp hid'
  obtain ⟨rfl, hkey⟩ := Prod.mk.inj hsource
  obtain ⟨rfl, hkey'⟩ := Prod.mk.inj hsource'
  rw [Keyed.eq_of_key Signal.sourceTradeId h.sources hs hs' (hkey.trans hkey'.symm)]

/-- At most one decision a trade. -/
theorem decisions_distinct {col : Columns} {db : Db} (h : Exportable db) {rows : List Row}
    (hrows : (rows.map fun r => r.trade.polymarketTradeId).Nodup) :
    ((col.decisions db rows).map Decision.sourceEventId).Nodup := by
  have horders : (db.paperOrders.zipIdx 1).Pairwise fun o o' => o.1.signalId ≠ o'.1.signalId := by
    have hn := h.orders
    rw [← List.zipIdx_map_fst 1 db.paperOrders, List.map_map] at hn
    exact List.pairwise_map.mp hn
  have hof : ∀ (r : Row) (o : PaperOrder × Nat) (d : Decision), o ∈ db.paperOrders.zipIdx 1 →
      (col.group db r.trade o).toOption.join = some d →
      d.sourceEventId = r.trade.polymarketTradeId ∧
      (o.1.signalId, r.trade.polymarketTradeId) ∈ db.signals.map Signal.source := by
    intro r o d ho hd
    obtain ⟨signalId, e, hlink, rfl⟩ := (group_join h ho).mp hd
    exact ⟨rfl, hlink.owner ▸ hlink.signal⟩
  rw [List.Nodup, List.pairwise_map]
  unfold Columns.decisions orderPairs
  rw [List.pairwise_filterMap, List.pairwise_flatMap]
  rw [List.Nodup, List.pairwise_map] at hrows
  refine ⟨fun r _ => ?_, hrows.imp fun {r r'} hne p hp p' hp' d hd d' hd' => ?_⟩
  · rw [List.pairwise_map]
    refine horders.imp_of_mem fun {o o'} ho ho' hne d hd d' hd' _ => hne ?_
    -- two orders of the trade would be of one signal
    exact source_unique h.tables (hof r o d ho hd).2 (hof r o' d' ho' hd').2
  · obtain ⟨o, ho, rfl⟩ := List.mem_map.mp hp
    obtain ⟨o', ho', rfl⟩ := List.mem_map.mp hp'
    rw [(hof r o d ho hd).1, (hof r' o' d' ho' hd').1]
    exact hne

/-! ## What a scan returns -/

theorem Columns.epochMicros_utc (col : Columns) (t : Time) :
    epochMicros (col.utc t) = .ok (col.datetime t).instant := (col.datetime t).epochMicros_utc

/-- The column has the time to the microsecond. -/
def Columns.Exact (col : Columns) (t : Time) : Prop := ((col.datetime t).instant : ℚ) = t * 1000000

structure Scannable (col : Columns) (b : Binding) (db : Db) : Prop where
  cohort : b.cohort.length = 5 ∧ b.cohort.Nodup
  window : Proper b.window
  clocks : ∀ t ∈ db.trades, col.Exact t.ingestedAt

theorem joinRow_some {b : Binding} {start stop : Int} {frozenIds : Option (List Nat)}
    {db : Db} {t : Trade} {r : Row} :
    joinRow b start stop frozenIds db t = some r ↔
      ∃ w m, db.wallet t.walletId = some w ∧ db.market t.marketId = some m ∧
      (w.address ∈ b.cohort ∧ start ≤ t.ingestedAt * 1000000 ∧ t.ingestedAt * 1000000 ≤ stop ∧
        ∀ ids ∈ frozenIds, t.id ∈ ids) ∧
      r = ⟨t, w.address, m.conditionId⟩ := by
  unfold joinRow
  simp only [Option.bind_eq_bind, Option.bind_eq_some_iff,
    Option.ite_none_right_eq_some, Option.some.injEq]
  constructor
  · rintro ⟨w, hw, m, hm, hcond, rfl⟩
    exact ⟨w, m, hw, hm, hcond, rfl⟩
  · rintro ⟨w, m, hw, hm, hcond, rfl⟩
    exact ⟨w, hw, m, hm, hcond, rfl⟩

theorem joinRow_trade {b : Binding} {start stop : Int} {frozenIds : Option (List Nat)}
    {db : Db} {t : Trade} {r : Row}
    (h : joinRow b start stop frozenIds db t = some r) : r.trade = t := by
  obtain ⟨w, m, -, -, -, rfl⟩ := joinRow_some.mp h
  rfl

theorem mem_selectRows {b : Binding} {start stop : Int}
    {frozenIds : Option (List Nat)} {db : Db} {r : Row} :
    r ∈ selectRows b start stop frozenIds db ↔
    ∃ t ∈ db.trades, joinRow b start stop frozenIds db t = some r := by
  unfold selectRows
  rw [List.mem_insertionSort, List.mem_filterMap]

/-- A row a trade: what distinguishes the trades distinguishes the rows. -/
theorem selectRows_distinct {β : Type} (g : Trade → β) {b : Binding} {start stop : Int}
    {frozenIds : Option (List Nat)} {db : Db} (hn : (db.trades.map g).Nodup) :
    ((selectRows b start stop frozenIds db).map fun r => g r.trade).Nodup := by
  have hperm := (List.perm_insertionSort (fun r r' : Row => r.trade.id ≤ r'.trade.id)
    (db.trades.filterMap (joinRow b start stop frozenIds db))).map fun r => g r.trade
  refine hperm.nodup_iff.mpr ?_
  rw [List.Nodup, List.pairwise_map, List.pairwise_filterMap]
  rw [List.Nodup, List.pairwise_map] at hn
  refine hn.imp fun {t t'} hne r hr r' hr' => ?_
  rw [joinRow_trade hr, joinRow_trade hr']
  exact hne

theorem checkMembers_ok {window : Py.Clock.Window} {facts : List TradeFact}
    (h : ∀ t ∈ facts, inWindow t.ingestedUtc window = .ok true) :
    checkMembers window facts = .ok () := by
  induction facts with
  | nil => rfl
  | cons t facts ih =>
    unfold checkMembers
    rw [h t List.mem_cons_self, ← ih fun u hu => h u (List.mem_cons_of_mem _ hu)]
    rfl

/-- The rows of a scan. -/
def RowsOf (b : Binding) (frozenIds : Option (List Nat)) (db : Db) (rows : List Row) : Prop :=
  ∃ start stop, epochMicros b.window.startUtc = .ok start ∧ epochMicros b.window.endUtc = .ok stop ∧
    rows = selectRows b start stop frozenIds db

theorem RowsOf.distinct {β : Type} (g : Trade → β) {b : Binding} {frozenIds : Option (List Nat)}
    {db : Db} {rows : List Row} (h : RowsOf b frozenIds db rows)
    (hn : (db.trades.map g).Nodup) :
    (rows.map fun r => g r.trade).Nodup := by
  obtain ⟨start, stop, -, -, rfl⟩ := h
  exact selectRows_distinct g hn

theorem collect_group (col : Columns) {db : Db} (h : Exportable db) (rows : List Row) :
    collect (fun p => col.group db p.1.trade p.2) (orderPairs db rows) =
      .ok (col.decisions db rows) := by
  refine collect_ok fun p hp => ?_
  rcases group_ok col h p.1.trade (mem_orderPairs.mp hp).2 with
    ⟨hgroup, -⟩ | ⟨signalId, e, -, hgroup⟩
  · exact ⟨_, hgroup⟩
  · exact ⟨_, hgroup⟩

/-- What a scan returns, if it does. -/
theorem scan_sound {col : Columns} {b : Binding} {frozenIds : Option (List Nat)} {db : Db}
    (h : Exportable db) {facts : List TradeFact} {decisions : List Decision}
    (hscan : col.scan b frozenIds db = .ok (facts, decisions)) :
    ∃ rows, RowsOf b frozenIds db rows ∧ facts = rows.map col.fact ∧
    decisions = col.decisions db rows := by
  unfold Columns.scan at hscan
  simp only [bind_ok_iff, raiseIf_ok_iff, collect_group col h,
    Except.ok.injEq, Prod.mk.injEq] at hscan
  obtain ⟨⟨⟩, -, start, hstart, stop, hstop, ⟨⟩, -, ⟨⟩, -, ds, rfl, ⟨⟩, -, rfl, rfl⟩ := hscan
  exact ⟨_, ⟨start, stop, hstart, hstop, rfl⟩, rfl, rfl⟩

theorem rows_oneEach (col : Columns) {db : Db} (h : Exportable db) {rows : List Row}
    (hrows : (rows.map fun r => r.trade.polymarketTradeId).Nodup) :
    OneEach (rows.map col.fact) (col.decisions db rows) where
  distinct := decisions_distinct h hrows
  events d hd := by
    obtain ⟨r, hr, o, signalId, e, -, rfl⟩ := (mem_decisions h).mp hd
    exact List.mem_map.mpr ⟨col.fact r, List.mem_map_of_mem hr, rfl⟩

theorem scan_ok {col : Columns} {b : Binding} {frozenIds : Option (List Nat)} {db : Db}
    (h : Exportable db) (hs : Scannable col b db) (hids : ∀ ids ∈ frozenIds, ids.Nodup) :
    ∃ rows, RowsOf b frozenIds db rows ∧
    col.scan b frozenIds db = .ok (rows.map col.fact, col.decisions db rows) := by
  obtain ⟨start, stop, hstart, hstop, hle⟩ := hs.window
  refine ⟨selectRows b start stop frozenIds db, ⟨start, stop, hstart, hstop, rfl⟩, ?_⟩
  have hmembers : checkMembers b.window
      ((selectRows b start stop frozenIds db).map col.fact) = .ok () := by
    refine checkMembers_ok fun f hf => ?_
    obtain ⟨r, hr, rfl⟩ := List.mem_map.mp hf
    obtain ⟨t, ht, hjoin⟩ := mem_selectRows.mp hr
    obtain ⟨w, m, -, -, ⟨-, hfrom, hto, -⟩, rfl⟩ := joinRow_some.mp hjoin
    have hexact : ((col.datetime t.ingestedAt).instant : ℚ) = t.ingestedAt * 1000000 :=
      hs.clocks t ht
    have hn := col.epochMicros_utc t.ingestedAt
    rw [← hexact] at hfrom hto
    have hinside := inWindow_proper hstart hstop hle hn
    rw [decide_eq_true ⟨by exact_mod_cast hfrom, by exact_mod_cast hto⟩] at hinside
    exact hinside
  have hdistinct : ((col.decisions db (selectRows b start stop frozenIds db)).map
      Decision.sourceEventId).Nodup :=
    decisions_distinct h (selectRows_distinct Trade.polymarketTradeId h.tradeKeys)
  unfold Columns.scan raiseIf
  rw [if_neg (by simp [hs.cohort.1, hs.cohort.2]), if_neg (by simpa using hids), hstart, hstop]
  simp only [bind, Except.bind, hmembers, collect_group col h]
  rw [if_neg (not_not.mpr hdistinct)]

/-! ## A later scan -/

/-- With the ids of an earlier scan, the rows of that scan. -/
theorem selectRows_later {b : Binding} {start stop : Int} {db db' : Db} (hg : Grows db db')
    (hids : (db'.trades.map Trade.id).Nodup) :
    selectRows b start stop (some ((selectRows b start stop none db).map fun r => r.trade.id)) db' =
      selectRows b start stop none db := by
  obtain ⟨more, hmore⟩ := hg.trades
  generalize hfrozen : (selectRows b start stop none db).map (fun r => r.trade.id) = ids
  have hmem : ∀ {id : Nat}, id ∈ ids ↔ ∃ t ∈ db.trades, t.id = id ∧
      (joinRow b start stop none db t).isSome := by
    intro id
    rw [← hfrozen, List.mem_map]
    constructor
    · rintro ⟨r, hr, rfl⟩
      obtain ⟨t, ht, hjoin⟩ := mem_selectRows.mp hr
      exact ⟨t, ht, by rw [joinRow_trade hjoin], by rw [hjoin]; rfl⟩
    · rintro ⟨t, ht, rfl, hsome⟩
      obtain ⟨r, hjoin⟩ := Option.isSome_iff_exists.mp hsome
      exact ⟨r, mem_selectRows.mpr ⟨t, ht, hjoin⟩, by rw [joinRow_trade hjoin]⟩
  have hold : ∀ t ∈ db.trades, joinRow b start stop (some ids) db' t =
      joinRow b start stop none db t := by
    intro t ht
    have htrade : t ∈ db'.trades := hmore ▸ List.mem_append_left _ ht
    cases hjoin : joinRow b start stop none db t with
    | some r =>
      obtain ⟨w, m, hw, hm, hcond, rfl⟩ := joinRow_some.mp hjoin
      obtain ⟨w', hw', haddress⟩ := hg.wallets _ w hw
      obtain ⟨m', hm', hcondition⟩ := hg.markets _ m hm
      refine joinRow_some.mpr ⟨w', m', hw', hm', ⟨haddress ▸ hcond.1, hcond.2.1, hcond.2.2.1, ?_⟩,
        by rw [haddress, hcondition]⟩
      intro frozen hfrozen'
      obtain rfl := Option.some.inj hfrozen'
      exact hmem.mpr ⟨t, ht, rfl, by rw [hjoin]; rfl⟩
    | none =>
      rw [Option.eq_none_iff_forall_ne_some]
      intro r hr
      obtain ⟨w, m, -, -, ⟨-, -, -, hin⟩, -⟩ := joinRow_some.mp hr
      obtain ⟨t', ht', hid, hsome⟩ := hmem.mp (hin ids rfl)
      obtain rfl := Keyed.eq_of_key Trade.id hids (hmore ▸ List.mem_append_left _ ht') htrade hid
      rw [hjoin] at hsome
      cases hsome
  have hnew : more.filterMap (joinRow b start stop (some ids) db') = [] := by
    rw [List.filterMap_eq_nil_iff]
    intro t ht
    rw [Option.eq_none_iff_forall_ne_some]
    intro r hr
    obtain ⟨w, m, -, -, ⟨-, -, -, hin⟩, -⟩ := joinRow_some.mp hr
    obtain ⟨t', ht', hid, -⟩ := hmem.mp (hin ids rfl)
    rw [← hmore, List.map_append] at hids
    exact List.disjoint_of_nodup_append hids (List.mem_map_of_mem ht') (hid ▸ List.mem_map_of_mem ht)
  unfold selectRows
  rw [← hmore, List.filterMap_append, hnew, List.append_nil, List.filterMap_congr hold]

theorem RowsOf.later {b : Binding} {db db' : Db} (hg : Grows db db')
    (hids : (db'.trades.map Trade.id).Nodup) {rows rows' : List Row} (h : RowsOf b none db rows)
    (h' : RowsOf b (some (rows.map fun r => r.trade.id)) db' rows') :
    rows' = rows := by
  obtain ⟨start, stop, hstart, hstop, rfl⟩ := h
  obtain ⟨start', stop', hstart', hstop', rfl⟩ := h'
  obtain rfl := Except.ok.inj (hstart.symm.trans hstart')
  obtain rfl := Except.ok.inj (hstop.symm.trans hstop')
  exact selectRows_later hg hids

theorem mem_zipIdx_prefix {α : Type} {l l' : List α} (h : l <+: l') {a : α × Nat}
    (ha : a ∈ l.zipIdx 1) : a ∈ l'.zipIdx 1 := by
  obtain ⟨more, rfl⟩ := h
  rw [List.zipIdx_append]
  exact List.mem_append_left _ ha

theorem Link.later {db db' : Db} (hg : Grows db db') {t : Trade} {o : PaperOrder × Nat}
    {signalId : Nat} {e : DecisionLogEntry × Nat}
    (h : Link db t o signalId e) : Link db' t o signalId e where
  signal := hg.signals.subset h.signal
  order := mem_zipIdx_prefix hg.orders h.order
  owner := h.owner
  entry := mem_zipIdx_prefix hg.log h.entry
  audit := h.audit

/-- A decision that was there is there, unchanged. -/
theorem decisions_later {col : Columns} {db db' : Db} (h : Exportable db) (h' : Exportable db')
    (hg : Grows db db') {rows : List Row} {d : Decision}
    (hd : d ∈ col.decisions db rows) : d ∈ col.decisions db' rows := by
  obtain ⟨r, hr, o, signalId, e, hlink, hdecision⟩ := (mem_decisions h).mp hd
  exact (mem_decisions h').mpr ⟨r, hr, o, signalId, e, hlink.later hg, hdecision⟩

/-- A trade has a decision where its signal is done. -/
theorem decided_iff {col : Columns} {db : Db} (h : Exportable db)
    {rows : List Row} {r : Row} (hr : r ∈ rows) :
    (∃ d ∈ col.decisions db rows, d.sourceEventId = r.trade.polymarketTradeId) ↔
      ∃ s ∈ db.signals, s.sourceTradeId = r.trade.polymarketTradeId ∧ s.status ≠ .pending := by
  constructor
  · rintro ⟨d, hd, hevent⟩
    obtain ⟨r', -, o, signalId, e, hlink, rfl⟩ := (mem_decisions h).mp hd
    obtain ⟨s, hs, hsource⟩ := List.mem_map.mp hlink.signal
    obtain ⟨rfl, hkey⟩ := Prod.mk.inj hsource
    refine ⟨s, hs, hkey.trans hevent, ?_⟩
    obtain ⟨-, horders, -⟩ | ⟨hdone, -⟩ := h.audits.audited s hs
    · have hmem : o.1 ∈ ordersOf db s.id :=
        List.mem_filter.mpr ⟨mem_of_zipIdx hlink.order, decide_eq_true hlink.owner⟩
      rw [horders] at hmem
      cases hmem
    · exact hdone
  · rintro ⟨s, hs, hsource, hdone⟩
    obtain ⟨hpending, -⟩ | ⟨-, o, e, horders, haudits, haudit⟩ := h.audits.audited s hs
    · exact absurd hpending hdone
    · have hmem : o ∈ ordersOf db s.id := horders ▸ List.mem_singleton_self _
      obtain ⟨ho, hid⟩ := List.mem_filter.mp hmem
      obtain ⟨i, hi⟩ : ∃ i, (o, i) ∈ db.paperOrders.zipIdx 1 := by
        rw [← List.zipIdx_map_fst 1 db.paperOrders] at ho
        obtain ⟨x, hx, rfl⟩ := List.mem_map.mp ho
        exact ⟨x.2, hx⟩
      obtain ⟨j, hj⟩ := auditRows_eq haudits haudit
      have hentry : (e, j) ∈ db.decisionLog.zipIdx 1 :=
        (List.mem_filter.mp (hj ▸ List.mem_singleton_self _ : (e, j) ∈ auditRows db s)).1
      have hlink : Link db r.trade (o, i) s.id (e, j) :=
        ⟨List.mem_map.mpr ⟨s, hs, Prod.ext rfl hsource⟩, hi,
          of_decide_eq_true hid, hentry, hsource ▸ haudit⟩
      exact ⟨_, (mem_decisions h).mpr ⟨r, hr, _, _, _, hlink, rfl⟩, rfl⟩

/-! ## The runs of the bot -/

theorem exportable {pw : DecPow} {tx : Text} {cfg : Settings} {t0 : Time}
    {tr : List (Polycopy.Event × Sys)} {s : Sys}
    (h : SysRun pw tx cfg t0 tr s) : Exportable s.db where
  tables := h.ok.tables
  audits := h.audits
  tradeIds := h.inv (fun s => (s.db.trades.map Trade.id).Nodup)
    (fun _ _ _ hn hs => hs.tradeIds hn) List.nodup_nil
  tradeKeys := h.ok.tradeKeys
  orders := h.lifecycle.orderSignals h.ok.tables

/-- What two scans of one run find, the later one with the ids of the earlier. -/
structure Scans (col : Columns) (b : Binding) (db db' : Db) (facts : List TradeFact)
    (decisions decisions' : List Decision) : Prop where
  first : col.scan b none db = .ok (facts, decisions)
  later : col.scan b (some (facts.map TradeFact.sourceRecordId)) db' = .ok (facts, decisions')
  oneEach : OneEach facts decisions ∧ OneEach facts decisions'
  kept : ∀ d ∈ decisions, d ∈ decisions'
  distinct : (facts.map TradeFact.sourceRecordId).Nodup ∧ (facts.map TradeFact.sourceEventId).Nodup
  decided : ∀ t ∈ facts, (∃ d ∈ decisions', d.sourceEventId = t.sourceEventId) ↔
    ∃ s ∈ db'.signals, s.sourceTradeId = t.sourceEventId ∧ s.status ≠ .pending

theorem fact_ids (col : Columns) (rows : List Row) :
    (rows.map col.fact).map TradeFact.sourceRecordId = rows.map fun r => r.trade.id :=
  List.map_map ..

theorem fact_events (col : Columns) (rows : List Row) :
    (rows.map col.fact).map TradeFact.sourceEventId = rows.map fun r =>
    r.trade.polymarketTradeId := List.map_map ..

theorem scans {col : Columns} {b : Binding} {db db' : Db} (h : Exportable db)
    (h' : Exportable db') (hg : Grows db db')
    (hs : Scannable col b db') : ∃ facts decisions decisions',
    Scans col b db db' facts decisions decisions' := by
  have hs₀ : Scannable col b db :=
    ⟨hs.cohort, hs.window, fun t ht => hs.clocks t (hg.trades.subset ht)⟩
  obtain ⟨rows, hrows, hscan⟩ := @scan_ok col b none db h hs₀ nofun
  have hids := hrows.distinct Trade.id h.tradeIds
  have hkeys := hrows.distinct Trade.polymarketTradeId h.tradeKeys
  obtain ⟨rows', hrows', hscan'⟩ := @scan_ok col b (some (rows.map fun r => r.trade.id)) db' h' hs
    fun ids hin => Option.some.inj hin ▸ hids
  obtain rfl := hrows.later hg h'.tradeIds hrows'
  rw [← fact_ids col] at hscan'
  refine ⟨_, _, _, hscan, hscan', ⟨rows_oneEach col h hkeys, rows_oneEach col h' hkeys⟩,
    fun d hd => decisions_later h h' hg hd, ?_, fun t ht => ?_⟩
  · rw [fact_ids, fact_events]
    exact ⟨hids, hkeys⟩
  · obtain ⟨r, hr, rfl⟩ := List.mem_map.mp ht
    exact decided_iff h' hr

/-- The bot is a source a drain can trust: in every run, a scan and every later one with its ids
find the same trades, and for each at most one decision, with its audit; a decision that was found
is found unchanged; and a trade has one from the moment its signal is executed or skipped. -/
theorem scan_later {pw : DecPow} {tx : Text} {cfg : Settings} {t0 : Time}
    {tr tr' : List (Polycopy.Event × Sys)} {s u : Sys} (h : SysRun pw tx cfg t0 tr s)
    (hr : Run (Step pw tx) s tr' u) {col : Columns} {b : Binding} (hs : Scannable col b u.db) :
    ∃ facts decisions decisions', Scans col b s.db u.db facts decisions decisions' :=
  scans (exportable h) (exportable (h.trans hr)) (run_grows hr) hs

/-! ## A drain over the running bot -/

/-- `FixedAdapter.scan`: the ids of FREEZE, the trades in the order of FREEZE, the decisions
in that of the trades. -/
def Columns.fixedScan (col : Columns) (b : Binding) (ids : List Nat)
    (checkpoint : Option SqlCheckpoint) (db : Db) : Except String Scan := do
  let (trades, decisions) ← col.scan b (some ids) db
  let events := (sortFacts trades).map TradeFact.sourceEventId
  .ok ⟨sortFacts trades, decisions.insertionSort fun d d' => events.idxOf d.sourceEventId ≤
    events.idxOf d'.sourceEventId, checkpoint⟩

/-- The bot with all that runs beside it, and the drain. -/
structure Watched where
  sys : Sys
  file : List Frame
  torn : Bool
  running : Bool

inductive WatchedEvent
  | bot (e : Polycopy.Event)
  | drain (e : DrainEvent)

inductive WatchedStep (pw : DecPow) (tx : Text) (col : Columns) (b : Binding) (ids : List Nat)
    (d : Drain) (w : Watched) : WatchedEvent → Watched → Prop
  | bot (e : Polycopy.Event) (sys : Sys) : Step pw tx w.sys e sys →
      WatchedStep pw tx col b ids d w (.bot e) { w with sys := sys }
  | opens : w.running = false → w.torn = false → d.load w.file = .ok () →
      WatchedStep pw tx col b ids d w (.drain .opens) { w with running := true }
  | crashes : WatchedStep pw tx col b ids d w (.drain .crashes) { w with running := false }
  | tears : w.running = true → WatchedStep pw tx col b ids d w (.drain .tears)
      { w with running := false, torn := true }
  | steps {now queriedUtc observedUtc : String} {checkpoint : Option SqlCheckpoint}
      {file : List Frame} : w.running = true →
      d.step w.file now queriedUtc observedUtc (col.fixedScan b ids checkpoint w.sys.db) = .ok file →
      WatchedStep pw tx col b ids d w (.drain .steps) { w with file := file }
  | timesOut {observedUtc : String} {file : List Frame} : w.running = true →
      d.timeout w.file observedUtc = .ok file →
      WatchedStep pw tx col b ids d w (.drain .timesOut) { w with file := file }

/-- A scan that raises appends nothing. -/
theorem step_raised {d : Drain} {file file' : List Frame} {now queriedUtc observedUtc text : String}
    (h : d.step file now queriedUtc observedUtc (.error text) = .ok file') : file' = file := by
  unfold Drain.step at h
  split at h
  · exact (Except.ok.inj h).symm
  · simp only [bind_ok_iff] at h
    obtain ⟨-, -, -, -, -, -, s, hs, -⟩ := h
    cases hs

/-- The population of `s`, and the frames with the decisions of the bot as it is now. -/
structure WatchOk (pw : DecPow) (tx : Text) (col : Columns) (d : Drain) (s : Sys)
    (rows : List Row) (w : Watched) : Prop where
  run : ∃ tr, Run (Step pw tx) s tr w.sys
  honest : Honest d (sortFacts (rows.map col.fact)) w.file (col.decisions w.sys.db rows)

theorem OneEach.sorted {facts : List TradeFact} {decisions : List Decision}
    (h : OneEach facts decisions) : OneEach (sortFacts facts) decisions where
  distinct := h.distinct
  events d hd :=
    ((List.perm_insertionSort _ facts).map TradeFact.sourceEventId).mem_iff.mpr (h.events d hd)

/-- What a fixed scan returns, if it does. -/
theorem fixedScan_sound {col : Columns} {b : Binding} {db db' : Db} (h' : Exportable db')
    (hg : Grows db db') {rows : List Row} (hrows : RowsOf b none db rows)
    {checkpoint : Option SqlCheckpoint} {scan : Scan}
    (hfixed : col.fixedScan b (rows.map fun r => r.trade.id) checkpoint db' = .ok scan) :
    ∃ decisions, scan = ⟨sortFacts (rows.map col.fact), decisions, checkpoint⟩ ∧
    decisions.Perm (col.decisions db' rows) := by
  obtain ⟨⟨trades, decisions⟩, hplain, hscan⟩ := bind_ok_iff.mp hfixed
  obtain ⟨rows', hrows', rfl, rfl⟩ := scan_sound h' hplain
  obtain rfl := hrows.later hg h'.tradeIds hrows'
  exact ⟨_, (Except.ok.inj hscan).symm, List.perm_insertionSort _ _⟩

theorem WatchOk.step {pw : DecPow} {tx : Text} {cfg : Settings} {t0 : Time}
    {tr : List (Polycopy.Event × Sys)} {s : Sys} (hs : SysRun pw tx cfg t0 tr s) {col : Columns}
    {b : Binding} {rows : List Row} (hrows : RowsOf b none s.db rows) {d : Drain}
    (ht : d.Takes (sortFacts (rows.map col.fact))) {w w' : Watched} {e : WatchedEvent}
    (h : WatchOk pw tx col d s rows w)
    (hstep : WatchedStep pw tx col b (rows.map fun r => r.trade.id) d w e w') :
    WatchOk pw tx col d s rows w' := by
  obtain ⟨⟨tr', hrun⟩, hhonest⟩ := h
  have hw := exportable (hs.trans hrun)
  have hkeys := hrows.distinct Trade.polymarketTradeId (exportable hs).tradeKeys
  cases hstep with
  | bot e sys hsys =>
    have hrun' := hrun.snoc e sys hsys
    have hw' := exportable (hs.trans hrun')
    refine ⟨⟨_, hrun'⟩, hhonest.load, (rows_oneEach col hw' hkeys).sorted, fun f hf => ?_⟩
    obtain ⟨hfacts, hids, herror, hfrom, hcovers⟩ := hhonest.frames f hf
    exact ⟨hfacts, hids, herror, hfrom.mono fun decision hd _ =>
      decisions_later hw hw' hsys.grows hd, hcovers⟩
  | opens | crashes | tears => exact ⟨⟨tr', hrun⟩, hhonest⟩
  | @steps now queriedUtc observedUtc checkpoint file _ hstep =>
    refine ⟨⟨tr', hrun⟩, ?_⟩
    cases hscan : col.fixedScan b (rows.map fun r => r.trade.id) checkpoint w.sys.db with
    | error text =>
      rw [hscan] at hstep
      exact step_raised hstep ▸ hhonest
    | ok scan =>
      obtain ⟨decisions, rfl, hperm⟩ := fixedScan_sound hw (run_grows hrun) hrows hscan
      rw [hscan] at hstep
      exact hhonest.steps ht hperm hstep
  | timesOut _ hstep => exact ⟨⟨tr', hrun⟩, hhonest.timesOut ht hstep⟩

/-- A drain over the running bot, with FREEZE at any point of its run: whatever the bot and its
crashes, new trades and the drain's own crashes do, the whole lines load, the drain opens again
unless part of a line is left, and no frame has an error but a timeout; and a scan that is due
succeeds, and ends the drain just where the bot has executed or skipped the signal of every
trade of the population. -/
theorem bot_drains {pw : DecPow} {tx : Text} {cfg : Settings} {t0 : Time}
    {tr : List (Polycopy.Event × Sys)} {s : Sys} (hs : SysRun pw tx cfg t0 tr s) {col : Columns}
    {b : Binding} {facts : List TradeFact} {decisions : List Decision}
    (hscan : col.scan b none s.db = .ok (facts, decisions)) {d : Drain}
    (hproof : ∃ r, d.populationProof (sortFacts facts) = .ok r)
    {wtr : List (WatchedEvent × Watched)} {w : Watched}
    (h : Run (WatchedStep pw tx col b (facts.map TradeFact.sourceRecordId) d)
      ⟨s, [], false, false⟩ wtr w) :
    d.load w.file = .ok () ∧
      (w.running = false → ((∃ w',
        WatchedStep pw tx col b (facts.map TradeFact.sourceRecordId) d w (.drain .opens) w') ↔
        w.torn = false)) ∧
      (∀ f ∈ w.file, f.sourceFacts = sortFacts facts ∧
        (f.error = none ∨ f.error = some safetyTimeout)) ∧
      ∀ (now queriedUtc observedUtc : String) (instant stop : Int)
        (checkpoint : Option SqlCheckpoint), Scannable col b w.sys.db →
        (∀ f, w.file.getLast? = some f → f.state = .draining) → epochMicros now = .ok instant →
        epochMicros d.binding.window.endUtc = .ok stop → stop ≤ instant →
        ∃ f, d.step w.file now queriedUtc observedUtc (col.fixedScan b
          (facts.map TradeFact.sourceRecordId) checkpoint w.sys.db) = .ok (w.file ++ [f]) ∧
          f.error = none ∧
          (f.state = .complete ↔ ∀ t ∈ facts, ∃ sig ∈ w.sys.db.signals,
            sig.sourceTradeId = t.sourceEventId ∧ sig.status ≠ .pending) := by
  obtain ⟨rows, hrows, rfl, rfl⟩ := scan_sound (exportable hs) hscan
  have hkeys := hrows.distinct Trade.polymarketTradeId (exportable hs).tradeKeys
  have hids := hrows.distinct Trade.id (exportable hs).tradeIds
  have hperm := List.perm_insertionSort (fun t u : TradeFact => toString t.sourceRecordId ≤
    toString u.sourceRecordId) (rows.map col.fact)
  have ht : d.Takes (sortFacts (rows.map col.fact)) := by
    refine ⟨(hperm.map _).nodup_iff.mpr ?_, (hperm.map _).nodup_iff.mpr ?_, hproof⟩
    · rw [fact_ids]
      exact hids
    · rw [fact_events]
      exact hkeys
  rw [fact_ids] at h ⊢
  have h0 : WatchOk pw tx col d s rows ⟨s, [], false, false⟩ :=
    ⟨⟨[], Run.nil⟩, rfl, (rows_oneEach col (exportable hs) hkeys).sorted,
      fun f hf => (List.not_mem_nil hf).elim⟩
  obtain ⟨⟨tr', hrun⟩, hhonest⟩ :=
    h.inv (WatchOk pw tx col d s rows) (fun _ _ _ hw hstep => hw.step hs hrows ht hstep) h0
  have hw := exportable (hs.trans hrun)
  refine ⟨hhonest.load, fun hdown => ⟨?_, fun hwhole => ⟨_, .opens hdown hwhole hhonest.load⟩⟩,
    fun f hf => ⟨(hhonest.frames f hf).sourceFacts, (hhonest.frames f hf).error⟩, ?_⟩
  · rintro ⟨w', hw'⟩
    cases hw' with
    | opens _ hwhole _ => exact hwhole
  intro now queriedUtc observedUtc instant stop checkpoint hscannable hopen hnow hstop hend
  obtain ⟨scan, hfixed⟩ : ∃ scan, col.fixedScan b
      (rows.map fun r => r.trade.id) checkpoint w.sys.db = .ok scan := by
    obtain ⟨rows', -, hplain⟩ := @scan_ok col b (some (rows.map fun r => r.trade.id)) _ hw
      hscannable fun ids hin => Option.some.inj hin ▸ hids
    unfold Columns.fixedScan
    rw [hplain]
    exact ⟨_, rfl⟩
  obtain ⟨scanned, rfl, hscanned⟩ := fixedScan_sound hw (run_grows hrun) hrows hfixed
  rw [hfixed]
  obtain ⟨f, hstep, hload, hf, herror, hrecorded⟩ := hhonest.scan ht hopen hnow hstop hend hscanned
  refine ⟨f, hstep, herror, ?_⟩
  rw [hf.complete_iff (validate_ok.mp (load_snoc.mp hload).2).2.1 herror hrecorded]
  have hsigned : ∀ d ∈ col.decisions w.sys.db rows, d.decisionUtc.isSome := by
    intro d hd
    obtain ⟨r, -, o, signalId, e, -, rfl⟩ := (mem_decisions hw).mp hd
    rfl
  constructor
  · intro hall t hmem
    obtain ⟨r, hr, rfl⟩ := List.mem_map.mp hmem
    obtain ⟨decision, hd, hevent, -⟩ := hall (col.fact r) (hperm.mem_iff.mpr hmem)
    exact (decided_iff hw hr).mp ⟨decision, hd, hevent⟩
  · intro hall t hmem
    obtain ⟨r, hr, rfl⟩ := List.mem_map.mp (hperm.mem_iff.mp hmem)
    obtain ⟨decision, hd, hevent⟩ :=
    (decided_iff hw hr).mpr (hall (col.fact r) (hperm.mem_iff.mp hmem))
    exact ⟨decision, hd, hevent, hsigned decision hd⟩

/-! ## A run of two trades -/

/-- A second of the first minute of 1970. -/
def rehearsalStamp (second : Fin 60) : Stamp where
  year := 1970
  month := 1
  day := 1
  hour := 0
  minute := 0
  second := second
  microsecond := 0
  utcoffset := 0
  valid := by revert second; decide
  offsetValid := by decide
  minutes := rfl
  hours := by decide

def rehearsalColumns : Columns where
  datetime t := if t = 0 then rehearsalStamp 0 else rehearsalStamp 30
  size q := toString q
  asset a := a.getD "null"
  side
    | .buy => "BUY"
    | .sell => "SELL"
    | .other text => text
  context _ := "context"
  createdAt _ := rehearsalStamp 30

def rehearsalBinding : Binding :=
  { rehearsal.binding with
    evidenceKind := "synthetic"
    window := ⟨"1970-01-01T00:00:00Z", "1970-01-01T00:00:10Z"⟩
    cohort := ["0xw", "0xa", "0xb", "0xc", "0xd"] }

/-- Two trades detected; then one is executed, and one, of a market resolved since, skipped. -/
def twoDetected : List Command :=
  enrol ++ [.ingestTrade (sampleTrade 1 "a" 1 .buy 0),
    .ingestTrade (sampleTrade 2 "b" 1 .sell 0)] ++ startCycle

def twoDecided : List Command :=
  [.tick 30] ++ fillNext "0.5" noFee ++ [.resolve 1 "Yes", .begin] ++ endCycle

def detectedState : Sys := outcome liveSettings twoDetected
def decidedState : Sys := lastState detectedState (continued detectedState twoDecided)

theorem detected_run : SysRun natPow Text.plain liveSettings 0
    ((history liveSettings twoDetected).getD []) detectedState :=
  history_run (by decide +kernel)

theorem decided_run : Run (Step natPow Text.plain) detectedState
    (continued detectedState twoDecided) decidedState :=
  continued_run (by decide +kernel)

theorem decided_scannable : Scannable rehearsalColumns rehearsalBinding decidedState.db := by
  have htimes : (decidedState.db.trades.all fun t => t.ingestedAt = 0) = true := by decide +kernel
  refine ⟨⟨rfl, by decide⟩, ⟨0, 10000000, by decide +kernel,
    by decide +kernel, by decide⟩, fun t ht => ?_⟩
  rw [of_decide_eq_true (List.all_eq_true.mp htimes t ht)]
  have hinstant : (rehearsalColumns.datetime 0).instant = 0 := by decide +kernel
  unfold Columns.Exact
  rw [hinstant]
  norm_num

theorem scan_later_rehearsal : ∃ facts decisions decisions',
    Scans rehearsalColumns rehearsalBinding detectedState.db decidedState.db
      facts decisions decisions' :=
  scan_later detected_run decided_run decided_scannable

/-- The trades before the decisions, and a drain of them. -/
def detectedFacts : List TradeFact :=
  ((rehearsalColumns.scan rehearsalBinding none detectedState.db).toOption.map Prod.fst).getD []

/-- A synthetic drain, which does not sign. -/
def botDrain : Drain :=
  { rehearsalDrain with
    binding := rehearsalBinding
    sign := fun _ => none
    verify := fun f => raiseIf f.signature.isSome "synthetic drain signature forbidden"
    verify_sign := fun _ => rfl }

def botPending : List Frame :=
  (botDrain.step [] "1970-01-01T00:00:20Z" "1970-01-01T00:00:20Z" "1970-01-01T00:00:20Z"
    (rehearsalColumns.fixedScan rehearsalBinding
      (detectedFacts.map TradeFact.sourceRecordId) none detectedState.db)).toOption.getD []

theorem watched_bot {pw : DecPow} {tx : Text} {col : Columns} {b : Binding}
    {ids : List Nat} {d : Drain} {s u : Sys} {tr : List (Polycopy.Event × Sys)}
    (h : Run (Step pw tx) s tr u) {file : List Frame} {torn running : Bool} :
    ∃ wtr, Run (WatchedStep pw tx col b ids d) ⟨s, file, torn, running⟩ wtr
      ⟨u, file, torn, running⟩ := by
  induction h with
  | nil => exact ⟨[], Run.nil⟩
  | snoc e u _ hs ih =>
    obtain ⟨wtr, hrun⟩ := ih
    exact ⟨_, hrun.snoc (.bot e) ⟨u, file, torn, running⟩ (.bot e u hs)⟩

/-- A scan before the decisions, a crash, the bot's cycle and the drain opened again, and the scan
after it. -/
theorem bot_drains_rehearsal : botDrain.load botPending = .ok () ∧
    ∃ f, botDrain.step botPending "1970-01-01T00:00:40Z"
      "1970-01-01T00:00:40Z" "1970-01-01T00:00:40Z"
      (rehearsalColumns.fixedScan rehearsalBinding (detectedFacts.map TradeFact.sourceRecordId) none
        decidedState.db) = .ok (botPending ++ [f]) ∧
      f.error = none ∧ f.state = .complete := by
  let ids := detectedFacts.map TradeFact.sourceRecordId
  let Next := WatchedStep natPow Text.plain rehearsalColumns rehearsalBinding ids botDrain
  have hopens : Next ⟨detectedState, [], false, false⟩ (.drain .opens)
      ⟨detectedState, [], false, true⟩ :=
    .opens rfl rfl rfl
  have hsteps : Next ⟨detectedState, [], false, true⟩ (.drain .steps)
      ⟨detectedState, botPending, false, true⟩ :=
    @WatchedStep.steps _ _ _ _ _ _ _ "1970-01-01T00:00:20Z"
      "1970-01-01T00:00:20Z" "1970-01-01T00:00:20Z"
      none _ rfl (ok_getD (by decide +kernel))
  have hcrashes : Next ⟨detectedState, botPending, false, true⟩ (.drain .crashes)
      ⟨detectedState, botPending, false, false⟩ := .crashes
  obtain ⟨wtr, hbot⟩ := @watched_bot natPow Text.plain rehearsalColumns rehearsalBinding ids botDrain
    _ _ _ decided_run botPending false false
  have hload : botDrain.load botPending = .ok () := by decide +kernel
  have hreopens : Next ⟨decidedState, botPending, false, false⟩ (.drain .opens)
      ⟨decidedState, botPending, false, true⟩ := .opens rfl rfl hload
  have hrun := (Run.cons hopens (.cons hsteps (.cons hcrashes hbot))).snoc _ _ hreopens
  have hscan : rehearsalColumns.scan rehearsalBinding none detectedState.db =
      .ok (detectedFacts, []) := by
    decide +kernel
  have h := bot_drains detected_run hscan ⟨_, rfl⟩ hrun
  obtain ⟨f, hstep, herror, hcomplete⟩ := h.2.2.2 "1970-01-01T00:00:40Z" "1970-01-01T00:00:40Z"
    "1970-01-01T00:00:40Z" 40000000 10000000 none decided_scannable (by decide +kernel)
    (by decide +kernel) (by decide +kernel) (by decide)
  exact ⟨h.1, f, hstep, herror, hcomplete.mpr (by decide +kernel)⟩

end Polycopy.Comparison
