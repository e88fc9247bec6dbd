import Polycopy.Accounting.Soundness
import Polycopy.Ingestion.Bootstrap
import Polycopy.Lib.Run

/-!
# The request budget of a backfill

Every request is counted, and the count committed, before it is made: one for a
page, two for each market of a discovery.  `WithinBudget` says of a run how many
of the requests it has counted are still to come; the last record covers what
was sent, whatever was interrupted since.
-/

namespace Polycopy

open Py Runs

variable {tx : Text} {nullsFirst : Bool} {wallet : Wallet}

/-! ## Runs -/

inductive BootstrapMove
  | own (e : BootstrapEvent)
  | elsewhere

/-- Every invocation reads the same settings. -/
def BootstrapEvent.Under (cfg : BootstrapSettings) : BootstrapEvent → Prop
  | .begin cfg' _ => cfg' = cfg
  | _ => True

inductive BootstrapStep (tx : Text) (nullsFirst : Bool) (wallet : Wallet)
    (cfg : BootstrapSettings) (s : Bootstrap) :
    BootstrapMove → Bootstrap → Prop
  | own (e : BootstrapEvent) (t : Bootstrap) (under : e.Under cfg)
      (queried : e.Queried nullsFirst wallet.id s)
      (step : s.next tx wallet e = some t) : BootstrapStep tx nullsFirst wallet cfg s (.own e) t
  | elsewhere (db : Db) (step : BootstrapElsewhere s.db db) :
      BootstrapStep tx nullsFirst wallet cfg s .elsewhere { s with db := db }

/-- Before the first invocation for a wallet. -/
structure Bootstrap.Start (s : Bootstrap) : Prop where
  pc : s.pc = .idle none
  records : s.records = []
  tradeCalls : s.tradeCalls = 0
  marketLookups : s.marketLookups = 0
  markets : s.db.UniqueMarkets

/-! ## Markets keep their condition -/

theorem describe_conditionId {gamma : Option Dict} {m m' : Market}
    (h : describe tx gamma m = .ok m') :
    m'.conditionId = m.conditionId := by
  unfold describe at h
  split at h
  · obtain rfl := Except.ok.inj h
    rfl
  · obtain rfl := Except.ok.inj h
    rfl
  · obtain ⟨tokenMap, -, h⟩ := bind_ok h
    obtain rfl := Except.ok.inj h
    rfl

theorem createMarket_conditionId {conditionId : String} {fetchMetadata : Bool}
    {response : Except Exc Json} {db : Db} {m : Market}
    (h : createMarket tx conditionId fetchMetadata response db = .ok m) :
    m.conditionId = conditionId := by
  unfold createMarket at h
  split at h
  · split at h
    · exact describe_conditionId h
    · obtain rfl := Except.ok.inj h
      rfl
    · obtain rfl := Except.ok.inj h
      rfl
    · cases h
  · obtain rfl := Except.ok.inj h
    rfl

theorem getOrCreateMarket_unique {conditionId : String} {fetchMetadata : Bool}
    {response : Except Exc Json} {db db' : Db} {m : Market} (hdb : db.UniqueMarkets)
    (h : getOrCreateMarket tx conditionId fetchMetadata response db = .ok (db', m)) :
    db'.UniqueMarkets := by
  unfold getOrCreateMarket at h
  split at h
  · obtain ⟨rfl, -⟩ := Prod.mk.inj (Except.ok.inj h)
    exact hdb
  · next hnone =>
    obtain ⟨market, hmarket, h⟩ := bind_ok h
    obtain ⟨rfl, -⟩ := Prod.mk.inj (Except.ok.inj h)
    refine Keyed.nodup_snoc Market.conditionId hdb fun hmem => ?_
    obtain ⟨other, hother, he⟩ := List.mem_map.mp hmem
    exact (Keyed.find_none Market.conditionId).mp hnone other hother
      (he.trans (createMarket_conditionId hmarket))

theorem insertTrade_unique {env : PageEnv} {fetchMetadata : Bool} {walletId : Nat}
    {key : String} {raw : Json} {db db' : Db} (hdb : db.UniqueMarkets)
    (h : insertTrade tx env fetchMetadata walletId key raw db = .ok db') :
    db'.UniqueMarkets := by
  obtain ⟨conditionId, -, h⟩ := bind_ok h
  obtain ⟨⟨db₁, market⟩, hmarket, h⟩ := bind_ok h
  have hunique := getOrCreateMarket_unique hdb hmarket
  obtain ⟨j1, -, h⟩ := bind_ok h
  obtain ⟨j2, -, h⟩ := bind_ok h
  obtain ⟨j3, -, h⟩ := bind_ok h
  obtain ⟨j4, -, h⟩ := bind_ok h
  obtain ⟨j5, -, h⟩ := bind_ok h
  obtain ⟨tradedAt, -, h⟩ := bind_ok h
  obtain ⟨size, -, h⟩ := bind_ok h
  obtain ⟨price, -, h⟩ := bind_ok h
  split at h
  · cases h
  · obtain rfl := Except.ok.inj h
    exact hunique

theorem ingestTradeRows_unique {env : PageEnv} {fetchMetadata : Bool}
    {walletId : Nat} {rows : List Json} {db : Db} {r : Ingested} (hdb : db.UniqueMarkets)
    (h : ingestTradeRows tx env fetchMetadata walletId rows db = .ok r) :
    r.db.UniqueMarkets := by
  obtain ⟨⟨keyed, quarantined⟩, -, h⟩ := bind_ok h
  obtain rfl := Except.ok.inj h
  have hfold : ∀ (fresh : List (String × Json)) (acc : Ingested), acc.db.UniqueMarkets →
      (fresh.foldl (writeRow tx env fetchMetadata walletId) acc).db.UniqueMarkets := by
    intro fresh
    induction fresh with
    | nil => exact fun acc hacc => hacc
    | cons kv fresh ih =>
      intro acc hacc
      apply ih
      unfold writeRow
      split
      · next hinsert => exact insertTrade_unique hacc hinsert
      · exact hacc
  exact hfold _ _ hdb

theorem updateMarket_conditionIds (id : Nat) {f : Market → Market} (hf : KeepsMarket f) (db : Db) :
    (updateMarket id f db).markets.map Market.conditionId = db.markets.map Market.conditionId :=
  Keyed.map_update Market.id Market.conditionId (fun m => (hf m).2) db.markets

/-- A settlement check adds no market and deletes no trade. -/
theorem CheckEffect.kept {db db' : Db} {m : Market} {asset : Option String} {r : Responses}
    (h : CheckEffect tx db m asset r db') :
    db'.markets.map Market.conditionId = db.markets.map Market.conditionId ∧
    db'.trades = db.trades := by
  cases h with
  | noted f throttle keeps after =>
    subst after
    exact ⟨updateMarket_conditionIds m.id keeps db, rfl⟩
  | settled f raw gamma winner keeps closes proved after =>
    subst after
    exact ⟨updateMarket_conditionIds m.id keeps db, rfl⟩

/-- A discovery checks at most the markets it was reserved for. -/
theorem selected_length {db : Db} (hdb : db.UniqueMarkets) {walletId : Nat}
    {ids : List String} {now : Time} {rows : List Market}
    (h : Selected nullsFirst db ⟨some walletId, none, some ids⟩ now rows) :
    rows.length ≤ ids.length := by
  obtain ⟨_, hperm, -, rfl⟩ := h
  have hsub : ∀ m ∈ rows, m ∈ db.markets ∧ m.conditionId ∈ ids := by
    intro m hm
    have hmem := hperm.subset hm
    unfold refreshable at hmem
    simp only [List.mem_filter, Bool.and_eq_true, List.contains_iff_mem] at hmem
    exact ⟨hmem.1, hmem.2.1.2⟩
  have hnodup : (rows.map Market.conditionId).Nodup := by
    rw [(hperm.map Market.conditionId).nodup_iff]
    exact hdb.sublist (List.filter_sublist.map _)
  have hle := (hnodup.subperm fun c hc => by
    obtain ⟨m, hm, rfl⟩ := List.mem_map.mp hc
    exact (hsub m hm).2).length_le
  rwa [List.length_map] at hle

theorem chosenMarkets_length {db : Db} {walletId : Nat} {b : Bootstrapping}
    {limit : Nat} {ids : List String}
    (h : ChosenMarkets nullsFirst db walletId b limit ids) : ids.length ≤ limit := by
  obtain ⟨l, -, -, rfl⟩ := h
  rw [List.length_map, List.length_take]
  exact Nat.min_le_left _ _

/-! ## The invariant -/

/-- The requests sent so far. -/
structure Sent where
  tradeCalls : Nat
  marketLookups : Nat

def Bootstrap.sent (s : Bootstrap) : Sent := ⟨s.tradeCalls, s.marketLookups⟩

def Sent.total (sent : Sent) : Nat := sent.tradeCalls + sent.marketLookups

/-- Of what a run has counted, so many `get_trades` calls and so many requests are still to come. -/
structure WithinBudget (cfg : BootstrapSettings) (sent : Sent) (b : Bootstrapping)
    (calls requests : Nat) : Prop where
  under : b.cfg = cfg
  maxPages : b.pages ≤ cfg.maxPages
  maxRequests : b.requests ≤ cfg.maxRequests
  calls : sent.tradeCalls + calls ≤ b.pages
  requests : sent.total + requests ≤ b.requests

/-- A record covers what was sent. -/
structure Covers (cfg : BootstrapSettings) (sent : Sent) (r : BootstrapRecord) : Prop where
  maxPages : r.pagesRequested ≤ cfg.maxPages
  maxRequests : r.requestsUsed ≤ cfg.maxRequests
  calls : sent.tradeCalls ≤ r.pagesRequested
  requests : sent.total ≤ r.requestsUsed

/-- The counts of a run are those of the last record. -/
def CountsRecorded (records : List BootstrapRecord) (b : Bootstrapping) : Prop :=
  ∃ r, records.getLast? = some r ∧ r.maturitySatisfied = false ∧
    r.pagesRequested = b.pages ∧ r.requestsUsed = b.requests

def PcBudget (cfg : BootstrapSettings) (sent : Sent)
    (records : List BootstrapRecord) : BootstrapPc → Prop
  | .idle _ => True
  | .selecting cfg' _ => cfg' = cfg
  | .gauging cfg' _ state =>
    cfg' = cfg ∧ state = records.getLast? ∧ state.any BootstrapRecord.maturitySatisfied = false
  | .maturing record => record.maturitySatisfied = true
  | .rolling b =>
    WithinBudget cfg sent b 0 0 ∧ b.pages < cfg.maxPages ∧ b.requests < cfg.maxRequests
  | .reserving b => WithinBudget cfg sent b 1 1
  | .awaitTrades b => WithinBudget cfg sent b 0 0
  | .storePage b _ _ => WithinBudget cfg sent b 0 0
  | .advancing b _ => WithinBudget cfg sent b 0 0
  | .throttling b _ => WithinBudget cfg sent b 0 0
  | .counting b _ _ => WithinBudget cfg sent b 0 0
  | .choosing b _ limit => WithinBudget cfg sent b 0 0 ∧ limit ≤ (cfg.maxRequests - b.requests) / 2
  | .reservingMarkets d => WithinBudget cfg sent d.b 0 (2 * d.conditionIds.length)
  | .calling d =>
    WithinBudget cfg sent d.b 0 (2 * d.conditionIds.length) ∧ CountsRecorded records d.b
  | .looking d job => WithinBudget cfg sent d.b 0 (2 * job.todo.length) ∧ CountsRecorded records d.b
  | .exact d job _ =>
    WithinBudget cfg sent d.b 0 (1 + 2 * job.todo.length) ∧ CountsRecorded records d.b
  | .token d job _ _ _ =>
    WithinBudget cfg sent d.b 0 (2 * job.todo.length) ∧ CountsRecorded records d.b
  | .weighing b _ => WithinBudget cfg sent b 0 0
  | .closing b => WithinBudget cfg sent b 0 0
  | .ending record => Covers cfg sent record

structure Budget (cfg : BootstrapSettings) (s : Bootstrap) : Prop where
  markets : s.db.UniqueMarkets
  calls : s.tradeCalls ≤ cfg.maxPages
  requests : s.sent.total ≤ cfg.maxRequests
  unsent : s.records = [] → s.sent = ⟨0, 0⟩
  last : ∀ r, s.records.getLast? = some r → r.maturitySatisfied = false → Covers cfg s.sent r
  pc : PcBudget cfg s.sent s.records s.pc

variable {cfg : BootstrapSettings} {s t : Bootstrap} {b : Bootstrapping} {sent : Sent}
  {records : List BootstrapRecord}

theorem WithinBudget.fewer {calls requests calls' requests' : Nat}
    (h : WithinBudget cfg sent b calls requests) (hcalls : calls' ≤ calls)
    (hrequests : requests' ≤ requests) :
    WithinBudget cfg sent b calls' requests' := by
  refine ⟨h.under, h.maxPages, h.maxRequests, ?_, ?_⟩
  · exact le_trans (Nat.add_le_add_left hcalls _) h.calls
  · exact le_trans (Nat.add_le_add_left hrequests _) h.requests

theorem WithinBudget.covers {calls requests : Nat} (h : WithinBudget cfg sent b calls requests) :
    Covers cfg sent (b.record wallet) :=
  ⟨h.maxPages, h.maxRequests, le_trans (Nat.le_add_right _ _) h.calls,
    le_trans (Nat.le_add_right _ _) h.requests⟩

/-- The counters of a run that are no part of the budget. -/
theorem WithinBudget.of_eq {b' : Bootstrapping} {calls requests : Nat}
    (h : WithinBudget cfg sent b calls requests) (hcfg : b'.cfg = b.cfg)
    (hpages : b'.pages = b.pages) (hrequests : b'.requests = b.requests) :
    WithinBudget cfg sent b' calls requests := by
  refine ⟨hcfg.trans h.under, ?_, ?_, ?_, ?_⟩
  · rw [hpages]; exact h.maxPages
  · rw [hrequests]; exact h.maxRequests
  · rw [hpages]; exact h.calls
  · rw [hrequests]; exact h.requests

/-! ## The code between two awaits -/

theorem within_iff : b.within = true ↔ b.pages < b.cfg.maxPages ∧ b.rowsFetched < b.cfg.maxTrades ∧
    b.requests < b.cfg.maxRequests := by
  unfold Bootstrapping.within
  simp only [Bool.and_eq_true, decide_eq_true_eq, and_assoc]

theorem budget_stop {termination : BootstrapReason} (h : WithinBudget cfg sent b 0 0) :
    PcBudget cfg sent records (b.stop termination) :=
  h.of_eq rfl rfl rfl

theorem budget_fail {e : Raised} (h : WithinBudget cfg sent b 0 0) :
    PcBudget cfg sent records (b.fail e) := by
  unfold Bootstrapping.fail
  split
  · exact budget_stop h
  · trivial

theorem budget_reserve (h : WithinBudget cfg sent b 0 0) (hpages : b.pages < cfg.maxPages)
    (hrequests : b.requests < cfg.maxRequests) :
    PcBudget cfg sent records b.reserve :=
  ⟨h.under, hpages, hrequests, Nat.add_le_add_right h.calls 1, Nat.add_le_add_right h.requests 1⟩

theorem budget_turn (h : WithinBudget cfg sent b 0 0) : PcBudget cfg sent records b.turn := by
  unfold Bootstrapping.turn
  split
  · next hguard =>
    rw [Bool.and_eq_true, within_iff, h.under] at hguard
    obtain ⟨⟨hpages, -, hrequests⟩, -⟩ := hguard
    split
    · split
      · exact budget_stop h
      · split
        · exact budget_stop h
        · exact ⟨h.of_eq rfl rfl rfl, hpages, hrequests⟩
    · exact budget_reserve h hpages hrequests
  · exact h

/-- A run starts from the counters of the last record. -/
theorem Budget.start (h : Budget cfg s) {now : Time}
    (himmature : s.records.getLast?.any BootstrapRecord.maturitySatisfied = false) :
    WithinBudget cfg s.sent (Bootstrapping.start cfg now s.records.getLast?) 0 0 := by
  cases hlast : s.records.getLast? with
  | none =>
    rw [h.unsent (List.getLast?_eq_none_iff.mp hlast)]
    exact ⟨rfl, Nat.zero_le _, Nat.zero_le _, Nat.le_refl 0, Nat.le_refl 0⟩
  | some r =>
    rw [hlast] at himmature
    have hcovers := h.last r hlast himmature
    exact ⟨rfl, hcovers.maxPages, hcovers.maxRequests, hcovers.calls, hcovers.requests⟩

theorem Budget.gauged (h : Budget cfg s) {now : Time} {e : Evidence}
    (himmature : s.records.getLast?.any BootstrapRecord.maturitySatisfied = false) :
    PcBudget cfg s.sent s.records (gauged wallet cfg now s.records.getLast? e) := by
  unfold Polycopy.gauged
  split
  · exact rfl
  · split
    · trivial
    · exact budget_turn (h.start himmature)

theorem seen_kept (b : Bootstrapping) (times : List Time) :
    (b.seen times).cfg = b.cfg ∧ (b.seen times).pages = b.pages ∧
    (b.seen times).requests = b.requests := by
  unfold Bootstrapping.seen
  split <;> exact ⟨rfl, rfl, rfl⟩

theorem budget_gotTrades {raw : List Json} {pc : BootstrapPc} (h : WithinBudget cfg sent b 0 0)
    (hpc : gotTrades tx b raw = .ok pc) : PcBudget cfg sent records pc := by
  unfold gotTrades at hpc
  dsimp only at hpc
  split at hpc
  · obtain rfl := Except.ok.inj hpc
    exact budget_stop (h.of_eq rfl rfl rfl)
  · cases htimes : parsedTimes tx raw with
    | error e =>
      rw [htimes] at hpc
      cases hpc
    | ok times =>
      rw [htimes] at hpc
      obtain rfl := Except.ok.inj hpc
      obtain ⟨hcfg, hpages, hrequests⟩ :=
        seen_kept { b with rowsFetched := b.rowsFetched + raw.length } times
      exact h.of_eq hcfg hpages hrequests

theorem budget_finish {d : Discovery} {stats : RefreshStats} (h : WithinBudget cfg sent d.b 0 0) :
    PcBudget cfg sent records (d.finish stats) := by
  unfold Discovery.finish
  split
  · exact budget_stop h
  · split
    · exact h.of_eq rfl rfl rfl
    · exact h

theorem budget_look {d : Discovery} {job : Job}
    (h : WithinBudget cfg sent d.b 0 (2 * job.todo.length))
    (hrecorded : CountsRecorded records d.b) :
    PcBudget cfg sent records (d.look job) := by
  unfold Discovery.look
  split
  · exact budget_finish (h.fewer (Nat.le_refl 0) (Nat.zero_le _))
  · exact ⟨h, hrecorded⟩

theorem budget_weighed {short : Bool} {e : Evidence} (h : WithinBudget cfg sent b 0 0) :
    PcBudget cfg sent records (weighed b short e) := by
  unfold weighed
  dsimp only
  split
  · exact budget_stop (h.of_eq rfl rfl rfl)
  · split
    · exact budget_stop (h.of_eq rfl rfl rfl)
    · split
      · exact budget_stop (h.of_eq rfl rfl rfl)
      · exact budget_turn (h.of_eq rfl rfl rfl)

theorem budget_chose {short : Bool} {limit : Nat} {ids : List String}
    (h : WithinBudget cfg sent b 0 0) (hlimit : limit ≤ (cfg.maxRequests - b.requests) / 2)
    (hids : ids.length ≤ limit) :
    PcBudget cfg sent records (chose b short ids) := by
  unfold chose
  split
  · exact h
  · have hmax := h.maxRequests
    have hroom : 2 * ids.length ≤ cfg.maxRequests - b.requests := by omega
    exact ⟨h.under, h.maxPages, (by show b.requests + 2 * ids.length ≤ _; omega), h.calls,
      Nat.add_le_add_right h.requests _⟩

/-! ## Steps -/

/-- A move that sends nothing and commits nothing. -/
theorem Budget.goto (h : Budget cfg s) {pc : BootstrapPc} (hpc : PcBudget cfg s.sent s.records pc) :
    Budget cfg (s.goto pc) :=
  ⟨h.markets, h.calls, h.requests, h.unsent, h.last, hpc⟩

/-- A record committed covers what was sent before it and the page asked for right after it. -/
theorem Budget.commit (h : Budget cfg s) {record : BootstrapRecord} {pc : BootstrapPc}
    (hrecord : s.pc.commit wallet = some (record, pc)) :
    Budget cfg { s with
      records := s.records ++ [record], pc := pc, tradeCalls := s.tradeCalls + pc.calls } := by
  have hpc := h.pc
  have hlast : ∀ r, (s.records ++ [record]).getLast? = some r → r = record := by
    intro r hr
    rw [List.getLast?_concat] at hr
    exact (Option.some.inj hr).symm
  have hrecorded : ∀ {b : Bootstrapping}, record = b.record wallet →
      CountsRecorded (s.records ++ [record]) b := by
    intro b hb
    exact ⟨record, List.getLast?_concat, by rw [hb]; rfl, by rw [hb]; rfl, by rw [hb]; rfl⟩
  -- a commit on the way to anything but a page
  have quiet : pc.calls = 0 → (record.maturitySatisfied = false → Covers cfg s.sent record) →
      PcBudget cfg s.sent (s.records ++ [record]) pc →
      Budget cfg { s with
        records := s.records ++ [record], pc := pc, tradeCalls := s.tradeCalls + pc.calls } := by
    intro hnone hcovers hnext
    rw [hnone]
    refine ⟨h.markets, h.calls, h.requests, fun he => ?_, fun r hr himmature => ?_, hnext⟩
    · exact absurd he (List.append_ne_nil_of_right_ne_nil _ (List.cons_ne_nil _ _))
    · obtain rfl := hlast r hr
      exact hcovers himmature
  unfold BootstrapPc.commit at hrecord
  split at hrecord
  · next r hs =>
    rw [hs] at hpc
    obtain ⟨rfl, rfl⟩ := Prod.mk.inj (Option.some.inj hrecord)
    exact quiet rfl (fun himmature => absurd (himmature.symm.trans hpc) (by decide)) trivial
  · next b hs =>
    rw [hs] at hpc
    obtain ⟨hwithin, hpages, hrequests⟩ := hpc
    obtain ⟨rfl, rfl⟩ := Prod.mk.inj (Option.some.inj hrecord)
    exact quiet rfl (fun _ => hwithin.covers) (budget_reserve hwithin hpages hrequests)
  · next b hs =>
    rw [hs] at hpc
    have hwithin : WithinBudget cfg s.sent b 1 1 := hpc
    obtain ⟨rfl, rfl⟩ := Prod.mk.inj (Option.some.inj hrecord)
    have htotal : (s.tradeCalls + 1) + s.marketLookups ≤ b.requests := by
      have hrequests : s.tradeCalls + s.marketLookups + 1 ≤ b.requests := hwithin.requests
      omega
    have hsent : WithinBudget cfg ⟨s.tradeCalls + 1, s.marketLookups⟩ b 0 0 :=
      ⟨hwithin.under, hwithin.maxPages, hwithin.maxRequests, hwithin.calls, htotal⟩
    refine ⟨h.markets, le_trans hsent.calls hsent.maxPages,
      le_trans htotal hsent.maxRequests, fun he => ?_, fun r hr _ => ?_, hsent⟩
    · exact absurd he (List.append_ne_nil_of_right_ne_nil _ (List.cons_ne_nil _ _))
    · obtain rfl := hlast r hr
      exact hsent.covers
  · next b short hs =>
    rw [hs] at hpc
    have hwithin : WithinBudget cfg s.sent b 0 0 := hpc
    obtain ⟨rfl, rfl⟩ := Prod.mk.inj (Option.some.inj hrecord)
    exact quiet rfl (fun _ => hwithin.covers) hwithin
  · next d hs =>
    rw [hs] at hpc
    have hwithin : WithinBudget cfg s.sent d.b 0 (2 * d.conditionIds.length) := hpc
    obtain ⟨rfl, rfl⟩ := Prod.mk.inj (Option.some.inj hrecord)
    exact quiet rfl (fun _ => hwithin.covers) ⟨hwithin, hrecorded rfl⟩
  · next r hs =>
    rw [hs] at hpc
    obtain ⟨rfl, rfl⟩ := Prod.mk.inj (Option.some.inj hrecord)
    exact quiet rfl (fun _ => hpc) trivial
  · cases hrecord

/-- A lookup that was counted. -/
theorem Budget.lookup (h : Budget cfg s) {d : Discovery} {requests : Nat} {pc : BootstrapPc}
    (hwithin : WithinBudget cfg s.sent d.b 0 (1 + requests))
    (hrecorded : CountsRecorded s.records d.b)
    (hpc : WithinBudget cfg ⟨s.tradeCalls, s.marketLookups + 1⟩ d.b 0 requests →
      PcBudget cfg ⟨s.tradeCalls, s.marketLookups + 1⟩ s.records pc) :
    Budget cfg { s with pc := pc, marketLookups := s.marketLookups + 1 } := by
  have htotal : s.tradeCalls + (s.marketLookups + 1) + requests ≤ d.b.requests := by
    have hrequests : s.tradeCalls + s.marketLookups + (1 + requests) ≤ d.b.requests :=
      hwithin.requests
    omega
  have hsent : WithinBudget cfg ⟨s.tradeCalls, s.marketLookups + 1⟩ d.b 0 requests :=
    ⟨hwithin.under, hwithin.maxPages, hwithin.maxRequests, hwithin.calls, htotal⟩
  obtain ⟨r, hlast, himmature, hpages, hused⟩ := hrecorded
  refine ⟨h.markets, h.calls, le_trans (le_trans (Nat.le_add_right _ _) htotal) hsent.maxRequests,
    fun he => ?_, fun r' hr' _ => ?_, hpc hsent⟩
  · have hnil : s.records = [] := he
    rw [hnil] at hlast
    cases hlast
  · obtain rfl := Option.some.inj (hlast.symm.trans hr')
    exact ⟨hpages ▸ hsent.maxPages, hused ▸ hsent.maxRequests, hpages ▸ hsent.calls,
      hused ▸ le_trans (Nat.le_add_right _ _) htotal⟩

theorem Budget.check (h : Budget cfg s) {d : Discovery} {job : Job} {market : Market}
    {asset : Option String} {r : Responses}
    (hwithin : WithinBudget cfg s.sent d.b 0 (2 * job.todo.length))
    (hrecorded : CountsRecorded s.records d.b)
    (hs : s.check tx d job market asset r = some t) : Budget cfg t := by
  unfold Bootstrap.check at hs
  split at hs
  · cases hs
  · next db stats stop hcommit =>
    obtain rfl := Option.some.inj hs
    have hmarkets : db.UniqueMarkets := by
      unfold Db.UniqueMarkets
      rw [(checkMarket_effect hcommit).kept.1]
      exact h.markets
    refine ⟨hmarkets, h.calls, h.requests, h.unsent, h.last, ?_⟩
    show PcBudget cfg s.sent s.records (if stop then d.finish stats
      else d.look { job with stats := stats })
    split
    · exact budget_finish (hwithin.fewer (Nat.le_refl 0) (Nat.zero_le _))
    · exact budget_look hwithin hrecorded

theorem PcBudget.discovering {pc : BootstrapPc} {sent : Sent} {records : List BootstrapRecord}
    (h : PcBudget cfg sent records pc) {d : Discovery} (hd : pc.discovery = some d) :
    ∃ requests, WithinBudget cfg sent d.b 0 requests := by
  unfold BootstrapPc.discovery at hd
  split at hd
  · obtain rfl := Option.some.inj hd
    exact ⟨_, h.1⟩
  · obtain rfl := Option.some.inj hd
    exact ⟨_, h.1⟩
  · obtain rfl := Option.some.inj hd
    exact ⟨_, h.1⟩
  · obtain rfl := Option.some.inj hd
    exact ⟨_, h.1⟩
  · cases hd

theorem Budget.own (h : Budget cfg s) {e : BootstrapEvent} (under : e.Under cfg)
    (queried : e.Queried nullsFirst wallet.id s)
    (hs : s.next tx wallet e = some t) : Budget cfg t := by
  have hpc := h.pc
  cases Bootstrap.moves_of_next hs with
  | begin cfg' now => exact h.goto under
  | mature cfg' now here => exact h.goto trivial
  | select cfg' now immature here =>
    rw [here] at hpc
    exact h.goto ⟨hpc, rfl, immature⟩
  | gauge cfg' now state here =>
    rw [here] at hpc
    obtain ⟨rfl, rfl, himmature⟩ := hpc
    exact h.goto (h.gauged himmature)
  | commit record pc here => exact h.commit here
  | failed b e here =>
    rw [here] at hpc
    exact h.goto (budget_fail hpc)
  | malformed b raw e raised here => exact h.goto trivial
  | fetched b raw pc got here =>
    rw [here] at hpc
    exact h.goto (budget_gotTrades hpc got)
  | store b raw short env here =>
    rw [here] at hpc
    unfold Bootstrap.store
    split
    · exact h.goto trivial
    · next r hr =>
      exact ⟨ingestTradeRows_unique h.markets hr, h.calls, h.requests, h.unsent,
        h.last, hpc.of_eq rfl rfl rfl⟩
  | throttle b short here =>
    rw [here] at hpc
    exact h.goto hpc
  | count b short remaining here =>
    rw [here] at hpc
    have hwithin : WithinBudget cfg s.sent b 0 0 := hpc
    refine h.goto ⟨hwithin, ?_⟩
    unfold marketLimit
    rw [hwithin.under]
    exact Nat.min_le_right _ _
  | choose b short limit ids here =>
    rw [here] at hpc
    exact h.goto (budget_chose hpc.1 hpc.2 (chosenMarkets_length (queried b short limit here)))
  | backedOff d now rows here =>
    rw [here] at hpc
    exact h.goto (budget_finish (hpc.1.fewer (Nat.le_refl 0) (Nat.zero_le _)))
  | call d now rows here =>
    rw [here] at hpc
    obtain ⟨hwithin, hrecorded⟩ := hpc
    have hlength := selected_length h.markets (queried d here)
    refine h.goto (budget_look (hwithin.fewer (Nat.le_refl 0) ?_) hrecorded)
    rw [List.length_map]
    exact Nat.mul_le_mul_left 2 hlength
  | lookup d job id rest market todo here =>
    rw [here] at hpc
    obtain ⟨hwithin, hrecorded⟩ := hpc
    rw [todo, List.length_cons] at hwithin
    have hdue : 1 + (1 + 2 * rest.length) ≤ 2 * (rest.length + 1) := by omega
    exact h.lookup (hwithin.fewer (Nat.le_refl 0) hdue) hrecorded fun hsent => ⟨hsent, hrecorded⟩
  | fallback d job market asset byCondition here =>
    rw [here] at hpc
    exact h.lookup hpc.1 hpc.2 fun hsent => ⟨hsent, hpc.2⟩
  | checkExact d job market response t checked here =>
    rw [here] at hpc
    exact h.check (hpc.1.fewer (Nat.le_refl 0) (Nat.le_add_left _ _)) hpc.2 checked
  | checkToken d job market asset byCondition response t checked here =>
    rw [here] at hpc
    exact h.check hpc.1 hpc.2 checked
  | raise d e here =>
    obtain ⟨requests, hwithin⟩ := hpc.discovering here
    exact h.goto (budget_fail (hwithin.fewer (Nat.le_refl 0) (Nat.zero_le _)))
  | weigh b short here =>
    rw [here] at hpc
    exact h.goto (budget_weighed hpc)
  | conclude b here =>
    rw [here] at hpc
    have hwithin : WithinBudget cfg s.sent b 0 0 := hpc
    exact h.goto ⟨hwithin.maxPages, hwithin.maxRequests, hwithin.calls, hwithin.requests⟩
  | crash => exact h.goto trivial

theorem BootstrapStep.budget {e : BootstrapMove} (h : Budget cfg s)
    (hs : BootstrapStep tx nullsFirst wallet cfg s e t) :
    Budget cfg t := by
  cases hs with
  | own e t under queried step => exact h.own under queried step
  | elsewhere db step => exact ⟨step.markets, h.calls, h.requests, h.unsent, h.last, h.pc⟩

theorem Bootstrap.Start.budget (h : s.Start) (cfg : BootstrapSettings) : Budget cfg s := by
  have hsent : s.sent = ⟨0, 0⟩ := by
    unfold Bootstrap.sent
    rw [h.tradeCalls, h.marketLookups]
  refine ⟨h.markets, ?_, ?_, fun _ => hsent, fun r hr => ?_, ?_⟩
  · rw [h.tradeCalls]
    exact Nat.zero_le _
  · rw [hsent]
    exact Nat.zero_le _
  · rw [h.records] at hr
    cases hr
  · rw [h.pc]
    trivial

/-- However often the invocations are interrupted, all pages asked for and all markets looked up
stay within the two bounds. -/
theorem bootstrap_within_budget {tr : List (BootstrapMove × Bootstrap)} (hstart : s.Start)
    (hrun : Run (BootstrapStep tx nullsFirst wallet cfg) s tr t) :
    t.tradeCalls ≤ cfg.maxPages ∧ t.tradeCalls + t.marketLookups ≤ cfg.maxRequests := by
  have hbudget := hrun.inv (Budget cfg) (fun _ _ _ h hs => hs.budget h) (hstart.budget cfg)
  exact ⟨hbudget.calls, hbudget.requests⟩

/-! Three invocations: one crashes, one meets an error, one finds the pages used up. -/

/-- Events that bring no rows of a query. -/
def BootstrapEvent.Plain (cfg : BootstrapSettings) (e : BootstrapEvent) : Prop :=
  e.Under cfg ∧ ∀ walletId s, e.Queried true walletId s

theorem run_of_replay {es : List BootstrapEvent} (hplain : ∀ e ∈ es, e.Plain cfg) :
    ∀ {s : Bootstrap} {tr : List (BootstrapEvent × Bootstrap)},
      replay (Bootstrap.next tx wallet) s es = some tr →
      ∃ tr', Run (BootstrapStep tx true wallet cfg) s tr' (last s tr) := by
  induction es with
  | nil =>
    intro s tr h
    obtain rfl := Option.some.inj h
    exact ⟨[], Run.nil⟩
  | cons e es ih =>
    intro s tr h
    unfold replay at h
    split at h
    · next t ht =>
      obtain ⟨tr', htr', rfl⟩ := Option.map_eq_some_iff.mp h
      obtain ⟨hunder, hqueried⟩ := hplain e List.mem_cons_self
      obtain ⟨rest, hrest⟩ := ih (fun e he => hplain e (List.mem_cons_of_mem _ he)) htr'
      exact ⟨_, (Run.single (BootstrapStep.own e t hunder (hqueried wallet.id s) ht)).trans hrest⟩
    · cases h

namespace Interrupted

def settings : BootstrapSettings := { bootstrapMaxPages := 2 }

def discovered : Wallet := ⟨1, "w", .discovered, none⟩

def start : Bootstrap := ⟨Db.empty, [], .idle none, [], [], 0, 0⟩

/-- Up to the call of `get_trades`. -/
def asking : List BootstrapEvent := [.begin settings 1000, .select, .gauge, .commit]

def events : List BootstrapEvent :=
  asking ++ [.crash] ++ asking ++ [.fetch (.error .osError), .conclude, .commit] ++
    [.begin settings 1000, .select, .gauge, .conclude, .commit]

end Interrupted

theorem bootstrap_within_budget_interrupted :
    ∃ t tr, Run (BootstrapStep Text.plain true Interrupted.discovered Interrupted.settings)
      Interrupted.start tr t ∧
      Interrupted.settings.maxPages = 2 ∧ t.tradeCalls = 2 ∧
      t.tradeCalls ≤ Interrupted.settings.maxPages := by
  have hsome : (replay (Bootstrap.next Text.plain Interrupted.discovered) Interrupted.start
      Interrupted.events).isSome = true := by
    decide +kernel
  obtain ⟨tr, htr⟩ := Option.isSome_iff_exists.mp hsome
  have hcalls : ((replay (Bootstrap.next Text.plain Interrupted.discovered)
      Interrupted.start Interrupted.events).map
      fun tr => (last Interrupted.start tr).tradeCalls) = some 2 := by decide +kernel
  rw [htr] at hcalls
  have hplain : ∀ e ∈ Interrupted.events, e.Plain Interrupted.settings := by
    simp [Interrupted.events, Interrupted.asking, BootstrapEvent.Plain,
      BootstrapEvent.Under, BootstrapEvent.Queried]
  obtain ⟨tr', hrun⟩ := run_of_replay hplain htr
  have hstart : Interrupted.start.Start := ⟨rfl, rfl, rfl, rfl, List.nodup_nil⟩
  exact ⟨_, tr', hrun, rfl, Option.some.inj hcalls, (bootstrap_within_budget hstart hrun).1⟩

end Polycopy
