import Polycopy.Ingestion.Budget
import Polycopy.Lib.Feed

/-!
# A backfill reads the whole history

The source is one log, of which a request sees the part from timestamp 1 up to its
`end`.  The first record fixes how many of these trades there were, `n`; each record
since says how far down its reader has come: `Log.Covered` up to `n`, from the rank
its offset points at.  Arrivals move the offset up, a roll starts over from the
oldest timestamp seen, a crash goes back to the last record; none of them leaves a
hole.  A page that is short reaches rank 0.
-/

namespace Polycopy

open Py Feed Runs

variable {tx : Text} {nullsFirst : Bool} {wallet : Wallet}

/-! ## The source -/

/-- A trade as the source has it, in whole seconds; what its row lacks is
not assumed to be there. -/
structure HistoryTrade (tx : Text) where
  serial : Nat
  raw : Json
  timestamp : Int
  timed : ∀ t, parseTradedAt tx raw = .ok t → t = timestamp

/-- The trades of one wallet, oldest first. -/
abbrev History (tx : Text) := Log (@HistoryTrade.serial tx) (@HistoryTrade.timestamp tx)

/-- Newest first; `start` and `end` are inclusive. -/
def History.getTrades (source : History tx) (r : TradesRequest) : List Json :=
  let rows := source.entries.filter fun t =>
    r.start.all (· ≤ t.timestamp) && r.endTimestamp.all (t.timestamp ≤ ·)
  ((rows.reverse.drop r.offset).take r.limit).map HistoryTrade.raw

theorem History.getTrades_page (source : History tx) (limit offset : Nat) (e : Int) :
    source.getTrades ⟨limit, offset, some 1, some e⟩ =
      ((source.above 1).page ((source.above 1).upTo e) offset limit).map HistoryTrade.raw := by
  have hfilter : (source.entries.filter fun t => (some 1).all (· ≤ t.timestamp) &&
      (some e).all (t.timestamp ≤ ·)) =
      (source.above 1).entries.filter fun t => t.timestamp ≤ e := by
    unfold Log.above
    rw [List.filter_filter]
    refine List.filter_congr fun t _ => ?_
    rw [Option.all_some, Option.all_some, Bool.and_comm]
  unfold History.getTrades Log.page
  rw [hfilter, Log.filter_eq_take]

/-! ## Runs -/

structure HistoryWorld (tx : Text) where
  source : History tx
  own : Bootstrap

inductive HistoryEvent
  | arrive | reply | elsewhere
  | own (e : BootstrapEvent)

/-- Of a response nothing is assumed but that it is an exception or what the source serves. -/
def BootstrapEvent.honest : BootstrapEvent → Prop
  | .fetch (.ok _) => False
  | _ => True

inductive HistoryStep (nullsFirst : Bool) (wallet : Wallet) :
    HistoryWorld tx → HistoryEvent → HistoryWorld tx → Prop
  | arrive (w : HistoryWorld tx) (source : History tx) (grows : w.source.Grows source) :
      HistoryStep nullsFirst wallet w .arrive { w with source := source }
  | reply (w : HistoryWorld tx) (r : TradesRequest) (own : Bootstrap)
      (asked : w.own.pc.request = some r)
      (step : w.own.next tx wallet (.fetch (.ok (w.source.getTrades r))) = some own) :
      HistoryStep nullsFirst wallet w .reply { w with own := own }
  | elsewhere (w : HistoryWorld tx) (db : Db) (step : BootstrapElsewhere w.own.db db) :
      HistoryStep nullsFirst wallet w .elsewhere { w with own := { w.own with db := db } }
  | own (w : HistoryWorld tx) (e : BootstrapEvent) (own : Bootstrap) (honest : e.honest)
      (queried : e.Queried nullsFirst wallet.id w.own) (step : w.own.next tx wallet e = some own) :
      HistoryStep nullsFirst wallet w (.own e) { w with own := own }

/-- Before the first run for a wallet. -/
structure HistoryWorld.Start (w : HistoryWorld tx) : Prop where
  pc : w.own.pc = .idle none
  records : w.own.records = []
  handed : w.own.handed = []
  quarantined : w.own.quarantined = []

/-- Stored under its identity, or quarantined, by it or for want of one. -/
def StoredOrQuarantined (tx : Text) (s : Bootstrap) (raw : Json) : Prop :=
  (∃ key, canonicalTradeId tx raw = .ok key ∧ Accounted s.db s.quarantined key) ∨
    ∃ q ∈ s.quarantined, q.raw = raw

/-! ## Rows without an identity -/

theorem unkeyed_of_mem : ∀ {rows : List Json} {acc acc' : List (String × Json) × List Quarantined},
    rows.foldlM (keyRow tx) acc = .ok acc' → (∀ q ∈ acc.2, q ∈ acc'.2) ∧
      ∀ raw ∈ rows, ∀ e, canonicalTradeId tx raw = .error e → ∃ q ∈ acc'.2, q.raw = raw := by
  intro rows
  induction rows with
  | nil =>
    intro acc acc' h
    obtain rfl := Except.ok.inj h
    exact ⟨fun q hq => hq, fun raw hraw => (List.not_mem_nil hraw).elim⟩
  | cons row rows ih =>
    intro acc acc' h
    rw [List.foldlM_cons] at h
    obtain ⟨mid, hmid, h⟩ := bind_ok h
    obtain ⟨hkeep', hrows⟩ := ih h
    have hrow : (∀ q ∈ acc.2, q ∈ mid.2) ∧ ∀ e, canonicalTradeId tx row = .error e →
        ∃ q ∈ mid.2, q.raw = row := by
      unfold keyRow at hmid
      split at hmid
      · next key hkey =>
        obtain rfl := Except.ok.inj hmid
        refine ⟨fun q hq => hq, fun e he => ?_⟩
        rw [hkey] at he
        cases he
      · split at hmid
        · obtain rfl := Except.ok.inj hmid
          exact ⟨fun q hq => List.mem_append_left _ hq,
            fun e he => ⟨_, List.mem_append_right _ (List.mem_singleton_self _), rfl⟩⟩
        · cases hmid
    refine ⟨fun q hq => hkeep' q (hrow.1 q hq), fun raw hraw e he => ?_⟩
    rcases List.mem_cons.mp hraw with rfl | hraw
    · obtain ⟨q, hq, hqraw⟩ := hrow.2 e he
      exact ⟨q, hkeep' q hq, hqraw⟩
    · exact hrows raw hraw e he

theorem writeRows_quarantined (env : PageEnv) (fetchMetadata : Bool) (walletId : Nat) :
    ∀ (fresh : List (String × Json)) (acc : Ingested), ∀ q ∈ acc.quarantined,
      q ∈ (fresh.foldl (writeRow tx env fetchMetadata walletId) acc).quarantined := by
  intro fresh
  induction fresh with
  | nil => exact fun acc q hq => hq
  | cons kv fresh ih =>
    intro acc q hq
    exact ih _ q ((writeRow_written tx env fetchMetadata walletId acc kv).2.1 q hq)

/-- A call that returns has quarantined the rows it could not identify. -/
theorem ingestTradeRows_unkeyed {env : PageEnv} {fetchMetadata : Bool}
    {walletId : Nat} {rows : List Json} {db : Db} {r : Ingested}
    (h : ingestTradeRows tx env fetchMetadata walletId rows db = .ok r) {raw : Json}
    (hraw : raw ∈ rows) {e : Exc}
    (he : canonicalTradeId tx raw = .error e) : ∃ q ∈ r.quarantined, q.raw = raw := by
  obtain ⟨⟨keyed, quarantined⟩, hkeyed, h⟩ := bind_ok h
  obtain rfl := Except.ok.inj h
  obtain ⟨q, hq, hqraw⟩ := (unkeyed_of_mem hkeyed).2 raw hraw e he
  exact ⟨q, writeRows_quarantined env fetchMetadata walletId _ ⟨db, 0, quarantined⟩ q hq, hqraw⟩

/-! ## How far a reader has come -/

/-- The source as it is now, and what committed calls were handed. -/
structure HistoryView (tx : Text) where
  source : History tx
  handed : List Json

namespace HistoryView

def log (v : HistoryView tx) : History tx := v.source.above 1

def Handed (v : HistoryView tx) (t : HistoryTrade tx) : Prop := t.raw ∈ v.handed

/-- The first `n` trades, from an offset below `e` on. -/
structure Frontier (v : HistoryView tx) (n : Nat) (e : Int) (offset : Nat)
    (w : Option Int) : Prop where
  covered : v.log.Covered v.Handed (v.log.upTo e - offset) w n
  /-- A timestamp of 0 would be read as none. -/
  positive : ∀ t, w = some t → 1 ≤ t
  set : e ≠ 0 ∨ n = 0
  known : n ≤ v.log.entries.length

def Exhausted (v : HistoryView tx) (n : Nat) : Prop := v.log.Spans v.Handed 0 n

structure RecordOk (v : HistoryView tx) (n : Nat) (r : BootstrapRecord) : Prop where
  frontier : r.maturitySatisfied = false → v.Frontier n r.endTimestamp r.nextOffset r.windowOldest
  exhausted : r.terminationReason = .historyExhausted → v.Exhausted n

/-- In the loop: no reason to stop has been found. -/
structure Running (v : HistoryView tx) (n : Nat) (b : Bootstrapping) : Prop where
  frontier : v.Frontier n b.endTimestamp b.offset b.windowOldest
  termination : b.termination = .configuredLimitReached

/-- A page served when the source had `m` trades up to `end`; the window is
already that of the page. -/
def PageOk (v : HistoryView tx) (n : Nat) (b : Bootstrapping)
    (raw : List Json) (short : Bool) : Prop :=
  ∃ m limit w, m ≤ v.log.upTo b.endTimestamp ∧ v.log.Covered v.Handed (m - b.offset) w n ∧
    raw = (v.log.page m b.offset limit).map HistoryTrade.raw ∧
    (b.windowOldest = w ∨ ∃ x ∈ v.log.page m b.offset limit, b.windowOldest = some x.timestamp) ∧
    (∀ t, w = some t → 1 ≤ t) ∧ (b.endTimestamp ≠ 0 ∨ n = 0) ∧ n ≤ v.log.entries.length ∧
    b.termination = .configuredLimitReached ∧ (short = true → raw.length < limit)

/-- After a page: a short one was the last. -/
def PagedOk (v : HistoryView tx) (n : Nat) (b : Bootstrapping) (short : Bool) : Prop :=
  v.Running n b ∧ (short = true → v.Exhausted n)

def PcOk (v : HistoryView tx) (n : Nat) (records : List BootstrapRecord) : BootstrapPc → Prop
  | .idle _ => True
  | .selecting _ _ => True
  | .gauging _ _ state =>
    state = records.getLast? ∧ state.any BootstrapRecord.maturitySatisfied = false
  | .maturing record => v.RecordOk n record
  | .rolling b => v.Running n b ∧ 1 ≤ b.requestedLimit
  | .reserving b => v.Running n b ∧ 1 ≤ b.requestedLimit
  | .awaitTrades b => v.Running n b ∧ 1 ≤ b.requestedLimit
  | .storePage b raw short => v.PageOk n b raw short
  | .advancing b short => v.PagedOk n b short
  | .throttling b short => v.PagedOk n b short
  | .counting b short _ => v.PagedOk n b short
  | .choosing b short _ => v.PagedOk n b short
  | .reservingMarkets d => v.PagedOk n d.b d.short
  | .calling d => v.PagedOk n d.b d.short
  | .looking d _ => v.PagedOk n d.b d.short
  | .exact d _ _ => v.PagedOk n d.b d.short
  | .token d _ _ _ _ => v.PagedOk n d.b d.short
  | .weighing b short => v.PagedOk n b short
  | .closing b => v.Frontier n b.endTimestamp b.offset b.windowOldest ∧
    (b.termination = .historyExhausted → v.Exhausted n)
  | .ending record => v.RecordOk n record

/-! ## The view only grows -/

structure Le (v v' : HistoryView tx) : Prop where
  source : v.source.Grows v'.source
  handed : ∀ raw ∈ v.handed, raw ∈ v'.handed

variable {v v' : HistoryView tx} {n : Nat}

theorem Le.log (h : v.Le v') : v.log.Grows v'.log := h.source.above 1

theorem Le.imp (h : v.Le v') (t : HistoryTrade tx) (ht : v.Handed t) :
    v'.Handed t := h.handed t.raw ht

theorem Le.known (h : v.Le v') (hn : n ≤ v.log.entries.length) : n ≤ v'.log.entries.length :=
  le_trans hn h.log.length_le

theorem Frontier.le {e : Int} {offset : Nat} {w : Option Int}
    (h : v.Frontier n e offset w) (hle : v.Le v') :
    v'.Frontier n e offset w := by
  have hgrow := Log.upTo_mono hle.log e
  refine ⟨?_, h.positive, h.set, hle.known h.known⟩
  exact ((h.covered.grows hle.log h.known).imp hle.imp).mono (Nat.sub_le_sub_right hgrow offset)

theorem Exhausted.le (h : v.Exhausted n) (hn : n ≤ v.log.entries.length)
    (hle : v.Le v') : v'.Exhausted n :=
  (Log.Spans.grows h hle.log hn).imp hle.imp

theorem RecordOk.le {r : BootstrapRecord} (h : v.RecordOk n r)
    (hn : n ≤ v.log.entries.length) (hle : v.Le v') :
    v'.RecordOk n r :=
  ⟨fun himmature => (h.frontier himmature).le hle, fun hreason => (h.exhausted hreason).le hn hle⟩

theorem Running.le {b : Bootstrapping} (h : v.Running n b) (hle : v.Le v') : v'.Running n b :=
  ⟨h.frontier.le hle, h.termination⟩

/-- A page is named by ranks, which arrivals do not move. -/
theorem PageOk.le {b : Bootstrapping} {raw : List Json} {short : Bool}
    (h : v.PageOk n b raw short) (hle : v.Le v') :
    v'.PageOk n b raw short := by
  obtain ⟨m, limit, w, hm, hcovered, hraw, hw, hpositive, hset, hn, htermination, hshort⟩ := h
  have hlength : m ≤ v.log.entries.length := le_trans hm (Log.upTo_le _ _)
  have hpage := Log.page_grows hle.log hlength b.offset limit
  refine ⟨m, limit, w, le_trans hm (Log.upTo_mono hle.log _),
    (hcovered.grows hle.log hn).imp hle.imp, ?_, ?_,
    hpositive, hset, hle.known hn, htermination, hshort⟩
  · rw [hpage]
    exact hraw
  · rw [hpage]
    exact hw

theorem PagedOk.le {b : Bootstrapping} {short : Bool} (h : v.PagedOk n b short)
    (hle : v.Le v') : v'.PagedOk n b short :=
  ⟨h.1.le hle, fun hshort => (h.2 hshort).le h.1.frontier.known hle⟩

theorem PcOk.le {records : List BootstrapRecord} {pc : BootstrapPc} (h : v.PcOk n records pc)
    (hn : n ≤ v.log.entries.length) (hle : v.Le v') : v'.PcOk n records pc := by
  cases pc with
  | idle result => trivial
  | selecting cfg now => trivial
  | gauging cfg now state => exact h
  | maturing record => exact RecordOk.le h hn hle
  | rolling b => exact ⟨h.1.le hle, h.2⟩
  | reserving b => exact ⟨h.1.le hle, h.2⟩
  | awaitTrades b => exact ⟨h.1.le hle, h.2⟩
  | storePage b raw short => exact PageOk.le h hle
  | advancing b short => exact PagedOk.le h hle
  | throttling b short => exact PagedOk.le h hle
  | counting b short remaining => exact PagedOk.le h hle
  | choosing b short limit => exact PagedOk.le h hle
  | reservingMarkets d => exact PagedOk.le h hle
  | calling d => exact PagedOk.le h hle
  | looking d job => exact PagedOk.le h hle
  | exact d job market => exact PagedOk.le h hle
  | token d job market asset byCondition => exact PagedOk.le h hle
  | weighing b short => exact PagedOk.le h hle
  | closing b => exact ⟨h.1.le hle, fun hreason => (h.2 hreason).le hn hle⟩
  | ending record => exact RecordOk.le h hn hle

/-! ## The code between two awaits -/

variable {records : List BootstrapRecord} {b : Bootstrapping} {short : Bool}

theorem Running.closing (h : v.Running n b) : v.PcOk n records (.closing b) := by
  refine ⟨h.frontier, fun hreason => ?_⟩
  rw [h.termination] at hreason
  cases hreason

/-- A `break` for any reason but the end of the history. -/
theorem Running.stop (h : v.Running n b) {reason : BootstrapReason}
    (hreason : reason ≠ .historyExhausted) :
    v.PcOk n records (b.stop reason) :=
  ⟨h.frontier, fun hexhausted => absurd hexhausted hreason⟩

theorem Running.fail (h : v.Running n b) (e : Raised) : v.PcOk n records (b.fail e) := by
  unfold Bootstrapping.fail
  split
  · exact h.stop (by decide)
  · trivial

/-- Below the ceiling a page asks for at least one row. -/
theorem requestedLimit_pos (hwithin : b.within = true) (hoffset : b.offset < 10000) :
    1 ≤ b.requestedLimit := by
  have hrows : b.rowsFetched < b.cfg.maxTrades := by
    unfold Bootstrapping.within at hwithin
    simp only [Bool.and_eq_true, decide_eq_true_eq] at hwithin
    exact hwithin.1.2
  have hsize : 1 ≤ b.cfg.pageSize := by
    unfold BootstrapSettings.pageSize BootstrapSettings.maxTrades atLeastOne
    omega
  unfold Bootstrapping.requestedLimit
  omega

/-- A roll starts over from the oldest timestamp seen. -/
theorem Running.roll (h : v.Running n b) {oldest : Int} (holdest : b.windowOldest = some oldest) :
    v.Running n { b with endTimestamp := oldest, offset := 0 } := by
  obtain ⟨⟨hcovered, hpositive, -, hn⟩, htermination⟩ := h
  rw [holdest] at hcovered
  have hone := hpositive oldest holdest
  refine ⟨⟨?_, hpositive, .inl (by show oldest ≠ 0; omega), hn⟩, htermination⟩
  show v.log.Covered v.Handed (v.log.upTo oldest - 0) b.windowOldest n
  rw [holdest]
  exact hcovered.roll

theorem Running.turn (h : v.Running n b) : v.PcOk n records b.turn := by
  unfold Bootstrapping.turn
  split
  · next hwhile =>
    rw [Bool.and_eq_true] at hwhile
    split
    · split
      · exact h.stop (by decide)
      · next oldest holdest =>
        split
        · exact h.stop (by decide)
        · have hrolled : ({ b with endTimestamp := oldest, offset := 0 } : Bootstrapping).within =
            true := hwhile.1
          exact ⟨h.roll holdest, requestedLimit_pos hrolled (Nat.zero_lt_succ _)⟩
    · next hoffset =>
      have hlimit : 1 ≤ b.requestedLimit := requestedLimit_pos hwhile.1 (by omega)
      exact ⟨⟨h.frontier, h.termination⟩, hlimit⟩
  · exact h.closing

/-- A run takes up where the last record stands. -/
theorem Frontier.start {r : BootstrapRecord}
    (h : v.Frontier n r.endTimestamp r.nextOffset r.windowOldest) (cfg : BootstrapSettings)
    (now : Time) :
    v.Running n (Bootstrapping.start cfg now (some r)) := by
  have hend : v.Frontier n (firstEnd (some r) now) r.nextOffset r.windowOldest := by
    unfold firstEnd
    dsimp only
    split
    · next hzero =>
      have hnone : n = 0 := h.set.resolve_left (not_not_intro hzero)
      subst hnone
      refine ⟨⟨fun i x _ hi => ?_, fun t _ i x hi => ?_⟩, h.positive, .inr rfl, Nat.zero_le _⟩
      · exact absurd hi (Nat.not_lt_zero i)
      · exact absurd hi (Nat.not_lt_zero i)
    · exact h
  exact ⟨hend, rfl⟩

theorem RecordOk.gauged {r : BootstrapRecord} (h : v.RecordOk n r)
    (himmature : r.maturitySatisfied = false) (wallet : Wallet) (cfg : BootstrapSettings)
    (now : Time) (e : Evidence) :
    v.PcOk n records (gauged wallet cfg now (some r) e) := by
  unfold Polycopy.gauged
  split
  · refine ⟨fun hfalse => ?_, fun hreason => ?_⟩
    · have : true = false := hfalse
      cases this
    · have : BootstrapReason.maturitySatisfied = .historyExhausted := hreason
      cases this
  · split
    · trivial
    · exact ((h.frontier himmature).start cfg now).turn

/-! ### A page -/

theorem parsedTimes_mem : ∀ {raw : List Json} {times : List Time},
    parsedTimes tx raw = .ok times → ∀ t ∈ times,
    ∃ item ∈ raw, parseTradedAt tx item = .ok t := by
  intro raw
  induction raw with
  | nil =>
    intro times h t ht
    obtain rfl := Except.ok.inj h
    exact (List.not_mem_nil ht).elim
  | cons item raw ih =>
    intro times h t ht
    have hrest : ∀ {rest : List Time}, parsedTimes tx raw = .ok rest → t ∈ rest →
        ∃ x ∈ item :: raw, parseTradedAt tx x = .ok t := by
      intro rest hok hmem
      obtain ⟨x, hx, hparsed⟩ := ih hok t hmem
      exact ⟨x, List.mem_cons_of_mem _ hx, hparsed⟩
    unfold parsedTimes at h
    split at h
    · next t' ht' =>
      obtain ⟨rest, htimes, rfl⟩ := map_ok h
      rcases List.mem_cons.mp ht with rfl | ht
      · exact ⟨item, List.mem_cons_self, ht'⟩
      · exact hrest htimes ht
    · exact hrest h ht
    · exact hrest h ht
    · cases h

/-- A page moves the window to its oldest timestamp, if it has one. -/
theorem seen_window (times : List Time) :
    (b.seen times).windowOldest = b.windowOldest ∨
    ∃ t ∈ times, (b.seen times).windowOldest = some (Json.trunc t) := by
  unfold Bootstrapping.seen
  split
  · next oldest newest holdest hnewest => exact .inr ⟨oldest, List.min?_mem holdest, rfl⟩
  · exact .inl rfl

theorem seen_rest (times : List Time) : (b.seen times).endTimestamp = b.endTimestamp ∧
    (b.seen times).offset = b.offset ∧
    (b.seen times).termination = b.termination := by
  unfold Bootstrapping.seen
  split
  · exact ⟨rfl, rfl, rfl⟩
  · exact ⟨rfl, rfl, rfl⟩

theorem trunc_intCast (i : Int) : Json.trunc (i : ℚ) = i := by
  unfold Json.trunc
  split
  · exact Rat.floor_intCast i
  · exact Rat.ceil_intCast i

/-- The timestamps that parse are those the source orders its trades by. -/
theorem PageOk.seen {raw : List Json} (h : v.PageOk n b raw short) {times : List Time}
    (htimes : parsedTimes tx raw = .ok times) : v.PageOk n (b.seen times) raw short := by
  obtain ⟨hend, hoffset, hreason⟩ := seen_rest (b := b) times
  obtain ⟨m, limit, w, hm, hcovered, hraw, hw, hpositive, hset, hn, htermination, hshort⟩ := h
  unfold PageOk
  rw [hend, hoffset, hreason]
  refine ⟨m, limit, w, hm, hcovered, hraw, ?_, hpositive, hset, hn, htermination, hshort⟩
  rcases seen_window (b := b) times with hsame | ⟨t, ht, hwindow⟩
  · rw [hsame]
    exact hw
  · obtain ⟨item, hitem, hparsed⟩ := parsedTimes_mem htimes t ht
    rw [hraw] at hitem
    obtain ⟨x, hx, rfl⟩ := List.mem_map.mp hitem
    refine .inr ⟨x, hx, ?_⟩
    rw [hwindow, x.timed t hparsed, trunc_intCast]

/-- The page a run asks for is that of the log. -/
theorem Running.gotTrades (h : v.Running n b) (hlimit : 1 ≤ b.requestedLimit) {pc : BootstrapPc}
    (hgot : gotTrades tx b (v.source.getTrades ⟨b.requestedLimit, b.offset, some 1,
      some b.endTimestamp⟩) = .ok pc) :
    v.PcOk n records pc := by
  have hraw : v.source.getTrades ⟨b.requestedLimit, b.offset, some 1, some b.endTimestamp⟩ =
      (v.log.page (v.log.upTo b.endTimestamp) b.offset b.requestedLimit).map HistoryTrade.raw :=
    History.getTrades_page v.source b.requestedLimit b.offset b.endTimestamp
  have hlength := Log.length_page (Log.upTo_le v.log b.endTimestamp) b.offset b.requestedLimit
  generalize v.source.getTrades ⟨b.requestedLimit, b.offset, some 1,
    some b.endTimestamp⟩ = raw at hraw hgot
  unfold Polycopy.gotTrades at hgot
  dsimp only at hgot
  split at hgot
  · next hempty =>
    obtain rfl := Except.ok.inj hgot
    refine ⟨h.frontier, fun _ => ?_⟩
    -- no row although one was asked for: the offset is past the oldest
    rw [List.isEmpty_iff.mp hempty] at hraw
    rw [List.map_eq_nil_iff.mp hraw.symm, List.length_nil] at hlength
    have hzero : v.log.upTo b.endTimestamp - b.offset = 0 := by omega
    have hcovered := h.frontier.covered
    rw [hzero] at hcovered
    exact hcovered.1
  · obtain ⟨times, htimes, rfl⟩ := map_ok hgot
    refine PageOk.seen ?_ htimes
    refine ⟨v.log.upTo b.endTimestamp, b.requestedLimit, b.windowOldest,
      Nat.le_refl _, h.frontier.covered, hraw,
      .inl rfl, h.frontier.positive, h.frontier.set, h.frontier.known,
      h.termination, fun hshort => ?_⟩
    exact of_decide_eq_true hshort

/-- A page that was stored moves the offset past it. -/
theorem PageOk.stored {raw : List Json} (h : v.PageOk n b raw short)
    (hhanded : ∀ row ∈ raw, row ∈ v.handed) (r : Ingested) :
    v.PcOk n records (storedTrades b raw short r) := by
  obtain ⟨m, limit, w, hm, hcovered, hraw, hw, hpositive, hset, hn, htermination, hshort⟩ := h
  have hmlength : m ≤ v.log.entries.length := le_trans hm (Log.upTo_le _ _)
  have hlength : raw.length = min limit (m - b.offset) := by
    rw [hraw, List.length_map, Log.length_page hmlength]
  have hpage : ∀ x ∈ v.log.page m b.offset limit, v.Handed x := by
    intro x hx
    apply hhanded
    rw [hraw]
    exact List.mem_map_of_mem hx
  have hnext : v.log.Covered v.Handed (m - b.offset - limit) b.windowOldest n :=
    hcovered.page hmlength hpage hw
  have hwindow : ∀ t, b.windowOldest = some t → 1 ≤ t := by
    intro t ht
    rcases hw with hsame | ⟨x, hx, hx'⟩
    · exact hpositive t (hsame ▸ ht)
    · obtain rfl := Option.some.inj (hx'.symm.trans ht)
      obtain ⟨i, hi, -, -⟩ := (Log.mem_page hmlength _ _).mp hx
      exact (Log.mem_above.mp (List.mem_of_getElem? hi)).2
  refine ⟨⟨⟨?_, hwindow, hset, hn⟩, htermination⟩, fun hpageShort => ?_⟩
  · refine hnext.mono ?_
    show m - b.offset - limit ≤ v.log.upTo b.endTimestamp - (b.offset + raw.length)
    omega
  · have hlast := hshort hpageShort
    have hzero : m - b.offset - limit = 0 := by omega
    rw [hzero] at hnext
    exact hnext.1

/-! ### After a page -/

/-- Counters and observations do not matter. -/
theorem Running.of_eq {b' : Bootstrapping} (h : v.Running n b)
    (hend : b'.endTimestamp = b.endTimestamp) (hoffset : b'.offset = b.offset)
    (hwindow : b'.windowOldest = b.windowOldest) (hreason : b'.termination = b.termination) :
    v.Running n b' := by
  refine ⟨?_, hreason.trans h.termination⟩
  rw [hend, hoffset, hwindow]
  exact h.frontier

theorem PagedOk.finish {d : Discovery} (h : v.PagedOk n d.b d.short) (stats : RefreshStats) :
    v.PcOk n records (d.finish stats) := by
  unfold Discovery.finish
  split
  · exact h.1.stop (by decide)
  · split
    · exact ⟨h.1.of_eq rfl rfl rfl rfl, h.2⟩
    · exact h

theorem PagedOk.look {d : Discovery} (h : v.PagedOk n d.b d.short) (job : Job) :
    v.PcOk n records (d.look job) := by
  unfold Discovery.look
  split
  · exact h.finish job.stats
  · exact h

theorem PagedOk.chose (h : v.PagedOk n b short) (conditionIds : List String) :
    v.PcOk n records (chose b short conditionIds) := by
  unfold Polycopy.chose
  split
  · exact h
  · exact ⟨h.1.of_eq rfl rfl rfl rfl, h.2⟩

theorem PagedOk.weighed (h : v.PagedOk n b short) (e : Evidence) :
    v.PcOk n records (weighed b short e) := by
  have hrunning : v.Running n { b with
      oldest := earlier b.oldest e.oldest
      newest := later b.newest e.newest
      mature := matured b.now e.count e.settled (earlier b.oldest e.oldest) } :=
        h.1.of_eq rfl rfl rfl rfl
  unfold Polycopy.weighed
  dsimp only
  split
  · exact hrunning.stop (by decide)
  · split
    · next hshort => exact ⟨h.1.frontier, fun _ => h.2 hshort⟩
    · split
      · exact hrunning.stop (by decide)
      · exact hrunning.turn

theorem PcOk.discovering {pc : BootstrapPc} (h : v.PcOk n records pc) {d : Discovery}
    (hd : pc.discovery = some d) :
    v.PagedOk n d.b d.short := by
  unfold BootstrapPc.discovery at hd
  split at hd
  · obtain rfl := Option.some.inj hd
    exact h
  · obtain rfl := Option.some.inj hd
    exact h
  · obtain rfl := Option.some.inj hd
    exact h
  · obtain rfl := Option.some.inj hd
    exact h
  · cases hd

theorem concluded_ok (wallet : Wallet) (e : Evidence) (h : v.PcOk n records (.closing b)) :
    v.PcOk n records (concluded wallet b e) := by
  refine ⟨fun _ => h.1, fun hreason => h.2 ?_⟩
  have hexhausted : b.reason = .historyExhausted := hreason
  unfold Bootstrapping.reason at hexhausted
  split at hexhausted
  · cases hexhausted
  · exact hexhausted

end HistoryView

end Polycopy
