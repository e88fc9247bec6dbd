import Polycopy.Accounting.Settlements
import Polycopy.Ingestion.CatchUp
import Polycopy.Scoring.Score

/-!
# Backfilling a new wallet

`bootstrap_wallet_history` of `ingestion/service.py`, one step for each `await`:

* idle → selecting → gauging, then idle when there is nothing to do;
* a page: reserving (after rolling at offset 10000) → awaitTrades → storePage →
  advancing;
* its markets: throttling → counting → choosing → reservingMarkets → calling, then
  for each market exact, token where the first lookup found nothing, and the commit;
* weighing → the next page, or closing → ending → idle.

Each commit in between adds a record with the counters as they are then; the
next run starts from the last record.  `evidence` is one step, its three queries
together.
-/

namespace Polycopy

open Py

/-! ## Settings and records -/

structure BootstrapSettings where
  bootstrapPageSize : Int := 100
  bootstrapMaxPages : Int := 200
  bootstrapMaxTrades : Int := 20000
  bootstrapMaxRequests : Int := 240
  bootstrapPagesPerRun : Int := 25
  bootstrapMaxSettlementMarkets : Int := 20
  deriving DecidableEq, Repr

/-- `max(1, …)`. -/
def atLeastOne (n : Int) : Nat := (max 1 n).toNat

namespace BootstrapSettings

def maxTrades (cfg : BootstrapSettings) : Nat := atLeastOne cfg.bootstrapMaxTrades

def pageSize (cfg : BootstrapSettings) : Nat :=
  min (min (atLeastOne cfg.bootstrapPageSize) cfg.maxTrades) 500

def maxPages (cfg : BootstrapSettings) : Nat := atLeastOne cfg.bootstrapMaxPages

def maxRequests (cfg : BootstrapSettings) : Nat := atLeastOne cfg.bootstrapMaxRequests

end BootstrapSettings

inductive BootstrapReason
  | maturitySatisfied | historyExhausted | configuredLimitReached | upstreamError | inProgress
  deriving DecidableEq, Repr

def BootstrapReason.text : BootstrapReason → String
  | .maturitySatisfied => "maturity_satisfied"
  | .historyExhausted => "history_exhausted"
  | .configuredLimitReached => "configured_limit_reached"
  | .upstreamError => "upstream_error"
  | .inProgress => "in_progress"

/-- The context of one `wallet_historical_bootstrap` entry. -/
structure BootstrapRecord where
  wallet : String
  walletId : Nat
  pagesRequested : Nat
  rowsFetched : Nat
  newTradesInserted : Nat
  duplicatesSkipped : Nat
  quarantinedRows : Nat
  oldestTradeObserved : Option Time
  newestTradeObserved : Option Time
  settledMarketCount : Nat
  totalLocalTradeCount : Nat
  maturitySatisfied : Bool
  terminationReason : BootstrapReason
  nextOffset : Nat
  endTimestamp : Int
  windowOldest : Option Int
  requestsUsed : Nat
  settlementChecked : List String
  deriving DecidableEq, Repr

/-! ## Maturity -/

/-- What the queries of `evidence` return. -/
structure Evidence where
  count : Nat
  settled : Nat
  oldest : Option Time
  newest : Option Time

/-- How many markets the wallet has traded in have a settlement. -/
def Db.settledCount (db : Db) (walletId : Nat) : Nat :=
  ((db.settlements.map Settlement.marketId).dedup.filter fun marketId =>
    db.trades.any fun t => t.walletId = walletId && t.marketId = marketId).length

def Db.evidence (db : Db) (walletId : Nat) : Evidence :=
  let trades := db.trades.filter fun t => t.walletId = walletId
  ⟨trades.length, db.settledCount walletId, (trades.map Trade.tradedAt).min?,
    (trades.map Trade.tradedAt).max?⟩

def matured (now : Time) (count settled : Nat) (oldest : Option Time) : Bool :=
  minTrades ≤ count && minSettledMarkets ≤ settled &&
    oldest.any fun oldest => (minAccountAgeDays : Int) ≤ ((now - oldest) / 86400).floor

def earlier : Option Time → Option Time → Option Time
  | some a, some b => some (min a b)
  | a, b => b.or a

def later : Option Time → Option Time → Option Time
  | some a, some b => some (max a b)
  | a, b => b.or a

/-! ## Local variables -/

structure Bootstrapping where
  cfg : BootstrapSettings
  now : Time
  state : Option BootstrapRecord
  endTimestamp : Int
  offset : Nat
  windowOldest : Option Int
  pages : Nat
  rowsFetched : Nat
  requests : Nat
  settlementChecked : List String
  insertedTotal : Nat
  duplicatesTotal : Nat
  quarantinedTotal : Nat
  termination : BootstrapReason
  mature : Bool
  oldest : Option Time
  newest : Option Time
  pagesThisRun : Nat

/-- `int(state.get("end_timestamp") or now.timestamp())`. -/
def firstEnd (state : Option BootstrapRecord) (now : Time) : Int :=
  match state with
  | none => Json.trunc now
  | some r => if r.endTimestamp = 0 then Json.trunc now else r.endTimestamp

def Bootstrapping.start (cfg : BootstrapSettings) (now : Time)
    (state : Option BootstrapRecord) : Bootstrapping where
  cfg := cfg
  now := now
  state := state
  endTimestamp := firstEnd state now
  offset := (state.map BootstrapRecord.nextOffset).getD 0
  windowOldest := state.bind BootstrapRecord.windowOldest
  pages := (state.map BootstrapRecord.pagesRequested).getD 0
  rowsFetched := (state.map BootstrapRecord.rowsFetched).getD 0
  requests := (state.map BootstrapRecord.requestsUsed).getD 0
  settlementChecked := (state.map BootstrapRecord.settlementChecked).getD []
  insertedTotal := 0
  duplicatesTotal := 0
  quarantinedTotal := 0
  termination := .configuredLimitReached
  mature := false
  oldest := none
  newest := none
  pagesThisRun := 0

/-- The context of `persist_progress` and of the last record, but for what differs between them. -/
def Bootstrapping.record (b : Bootstrapping) (wallet : Wallet) : BootstrapRecord where
  wallet := wallet.address
  walletId := wallet.id
  pagesRequested := b.pages
  rowsFetched := b.rowsFetched
  newTradesInserted := (b.state.map BootstrapRecord.newTradesInserted).getD 0 + b.insertedTotal
  duplicatesSkipped := (b.state.map BootstrapRecord.duplicatesSkipped).getD 0 + b.duplicatesTotal
  quarantinedRows := (b.state.map BootstrapRecord.quarantinedRows).getD 0 + b.quarantinedTotal
  oldestTradeObserved := b.oldest
  newestTradeObserved := b.newest
  settledMarketCount := (b.state.map BootstrapRecord.settledMarketCount).getD 0
  totalLocalTradeCount := (b.state.map BootstrapRecord.totalLocalTradeCount).getD 0
  maturitySatisfied := false
  terminationReason := .inProgress
  nextOffset := b.offset
  endTimestamp := b.endTimestamp
  windowOldest := b.windowOldest
  requestsUsed := b.requests
  settlementChecked := b.settlementChecked

def Bootstrapping.requestedLimit (b : Bootstrapping) : Nat :=
  min (min b.cfg.pageSize (b.cfg.maxTrades - b.rowsFetched)) (10000 - b.offset)

/-- A settlement discovery: the markets it was reserved for, and whether the page was short. -/
structure Discovery where
  b : Bootstrapping
  short : Bool
  conditionIds : List String

inductive BootstrapPc
  | idle (result : Option BootstrapRecord)
  | selecting (cfg : BootstrapSettings) (now : Time)
  | gauging (cfg : BootstrapSettings) (now : Time) (state : Option BootstrapRecord)
  | maturing (record : BootstrapRecord)
  | rolling (b : Bootstrapping)
  | reserving (b : Bootstrapping)
  | awaitTrades (b : Bootstrapping)
  | storePage (b : Bootstrapping) (raw : List Json) (short : Bool)
  | advancing (b : Bootstrapping) (short : Bool)
  | throttling (b : Bootstrapping) (short : Bool)
  | counting (b : Bootstrapping) (short : Bool) (remaining : Nat)
  | choosing (b : Bootstrapping) (short : Bool) (limit : Nat)
  | reservingMarkets (d : Discovery)
  | calling (d : Discovery)
  | looking (d : Discovery) (job : Job)
  | exact (d : Discovery) (job : Job) (market : Market)
  | token (d : Discovery) (job : Job) (market : Market) (asset : String)
      (byCondition : Except Exc Json)
  | weighing (b : Bootstrapping) (short : Bool)
  | closing (b : Bootstrapping)
  | ending (record : BootstrapRecord)

/-- The page a run is waiting for. -/
def BootstrapPc.request : BootstrapPc → Option TradesRequest
  | .awaitTrades b => some ⟨b.requestedLimit, b.offset, some 1, some b.endTimestamp⟩
  | _ => none

/-! ## The code between two awaits -/

/-- An exception at a request or within the settlement discovery. -/
inductive Raised
  | osError
  | exc (e : Exc)

/-- `except (PolymarketAPIError, ValueError, OSError)`. -/
def Raised.caught : Raised → Bool
  | .osError => true
  | .exc (.apiError _) => true
  | .exc .valueError => true
  | .exc _ => false

/-- `break`. -/
def Bootstrapping.stop (b : Bootstrapping) (termination : BootstrapReason) : BootstrapPc :=
  .closing { b with termination := termination }

def Bootstrapping.fail (b : Bootstrapping) (e : Raised) : BootstrapPc :=
  if e.caught then b.stop .upstreamError else .idle none

/-- The page and its request are counted before they are made. -/
def Bootstrapping.reserve (b : Bootstrapping) : BootstrapPc :=
  .reserving { b with
    pages := b.pages + 1, pagesThisRun := b.pagesThisRun + 1, requests := b.requests + 1 }

/-- The condition of the `while`, but for the pages of this run. -/
def Bootstrapping.within (b : Bootstrapping) : Bool :=
  b.pages < b.cfg.maxPages && b.rowsFetched < b.cfg.maxTrades && b.requests < b.cfg.maxRequests

def Bootstrapping.turn (b : Bootstrapping) : BootstrapPc :=
  if b.within && (b.pagesThisRun : Int) < b.cfg.bootstrapPagesPerRun then
    if 10000 ≤ b.offset then
      match b.windowOldest with
      | none => b.stop .configuredLimitReached
      | some oldest =>
        if b.endTimestamp ≤ oldest then b.stop .configuredLimitReached
        -- inclusive: boundary trades can overlap
        else .rolling { b with endTimestamp := oldest, offset := 0 }
    else b.reserve
  else .closing b

/-- The record of a wallet that is mature before the first page. -/
def maturedRecord (wallet : Wallet) (now : Time) (e : Evidence) : BootstrapRecord where
  wallet := wallet.address
  walletId := wallet.id
  pagesRequested := 0
  rowsFetched := 0
  newTradesInserted := 0
  duplicatesSkipped := 0
  quarantinedRows := 0
  oldestTradeObserved := e.oldest
  newestTradeObserved := e.newest
  settledMarketCount := e.settled
  totalLocalTradeCount := e.count
  maturitySatisfied := true
  terminationReason := .maturitySatisfied
  nextOffset := 0
  endTimestamp := Json.trunc now
  windowOldest := none
  requestsUsed := 0
  settlementChecked := []

/-- The returns before the loop. -/
def BootstrapRecord.done (cfg : BootstrapSettings) (r : BootstrapRecord) : Bool :=
  r.terminationReason = .historyExhausted ||
    (r.terminationReason = .configuredLimitReached &&
      (cfg.maxPages ≤ r.pagesRequested || cfg.maxTrades ≤ r.rowsFetched ||
        cfg.maxRequests ≤ r.requestsUsed))

def gauged (wallet : Wallet) (cfg : BootstrapSettings) (now : Time)
    (state : Option BootstrapRecord) (e : Evidence) :
    BootstrapPc :=
  if matured now e.count e.settled e.oldest then .maturing (maturedRecord wallet now e)
  else if state.any (BootstrapRecord.done cfg) then .idle state
  else (Bootstrapping.start cfg now state).turn

/-- The timestamps that parse. -/
def parsedTimes (tx : Text) : List Json → Except Exc (List Time)
  | [] => .ok []
  | item :: raw => match parseTradedAt tx item with
    | .ok t => (parsedTimes tx raw).map (t :: ·)
    | .error .valueError => parsedTimes tx raw
    | .error .typeError => parsedTimes tx raw
    | .error e => .error e

def Bootstrapping.seen (b : Bootstrapping) (times : List Time) : Bootstrapping :=
  match times.min?, times.max? with
  | some pageOldest, some pageNewest =>
    { b with
      windowOldest := some (Json.trunc pageOldest)
      oldest := earlier b.oldest (some pageOldest)
      newest := later b.newest (some pageNewest) }
  | _, _ => b

def gotTrades (tx : Text) (b : Bootstrapping) (raw : List Json) : Except Exc BootstrapPc :=
  let short := raw.length < b.requestedLimit
  let b := { b with rowsFetched := b.rowsFetched + raw.length }
  if raw.isEmpty then .ok (b.stop .historyExhausted)
  else (parsedTimes tx raw).map fun times => .storePage (b.seen times) raw short

def storedTrades (b : Bootstrapping) (raw : List Json) (short : Bool)
    (r : Ingested) : BootstrapPc :=
  .advancing { b with
    insertedTotal := b.insertedTotal + r.inserted
    quarantinedTotal := b.quarantinedTotal + r.quarantined.length
    duplicatesTotal := b.duplicatesTotal + (raw.length - r.inserted - r.quarantined.length)
    offset := b.offset + raw.length } short

def remainingMarkets (b : Bootstrapping) (db : Db) : Nat :=
  if gammaBackoffActive db b.now then 0
  else (b.cfg.bootstrapMaxSettlementMarkets - b.settlementChecked.length).toNat

def marketLimit (b : Bootstrapping) (remaining currentSettled : Nat) : Nat :=
  min (if currentSettled < minSettledMarkets then remaining
    else 0) ((b.cfg.maxRequests - b.requests) / 2)

/-- An exact lookup and a token fallback are counted for each market. -/
def chose (b : Bootstrapping) (short : Bool) (conditionIds : List String) : BootstrapPc :=
  if conditionIds.isEmpty then .weighing b short
  else .reservingMarkets ⟨{ b with requests := b.requests + 2 * conditionIds.length },
    short, conditionIds⟩

def Discovery.finish (d : Discovery) (stats : RefreshStats) : BootstrapPc :=
  if stats.errors ≠ 0 then d.b.stop .upstreamError
  else if stats.checked = d.conditionIds.length then
    .weighing { d.b with settlementChecked := d.b.settlementChecked ++ d.conditionIds } d.short
  else .weighing d.b d.short

def Discovery.look (d : Discovery) (job : Job) : BootstrapPc :=
  if job.todo.isEmpty then d.finish job.stats else .looking d job

def weighed (b : Bootstrapping) (short : Bool) (e : Evidence) : BootstrapPc :=
  let oldest := earlier b.oldest e.oldest
  let b := { b with
    oldest := oldest
    newest := later b.newest e.newest
    mature := matured b.now e.count e.settled oldest }
  if b.mature then b.stop .maturitySatisfied
  else if short then b.stop .historyExhausted
  else if !b.within then b.stop .configuredLimitReached
  else b.turn

def Bootstrapping.reason (b : Bootstrapping) : BootstrapReason :=
  if b.termination = .configuredLimitReached && !b.mature &&
      b.cfg.bootstrapPagesPerRun ≤ b.pagesThisRun && b.within then
    .inProgress
  else b.termination

def concluded (wallet : Wallet) (b : Bootstrapping) (e : Evidence) : BootstrapPc :=
  .ending { b.record wallet with
    oldestTradeObserved := earlier b.oldest e.oldest
    newestTradeObserved := later b.newest e.newest
    settledMarketCount := e.settled
    totalLocalTradeCount := e.count
    maturitySatisfied := b.mature
    terminationReason := b.reason }

/-! ## Steps -/

/-- The tables and the records of the wallet as committed, where the run stands; what committed
calls of `ingest_trade_rows` have been handed and have quarantined, and the requests sent so far. -/
structure Bootstrap where
  db : Db
  records : List BootstrapRecord
  pc : BootstrapPc
  handed : List Json
  quarantined : List Quarantined
  tradeCalls : Nat
  marketLookups : Nat

inductive BootstrapEvent
  | begin (cfg : BootstrapSettings) (now : Time)
  | select
  | gauge
  | commit
  | fetch (response : Except Raised (List Json))
  | store (env : PageEnv)
  | throttle
  | count
  | choose (conditionIds : List String)
  | call (now : Time) (rows : List Market)
  | lookup
  | fallback (asset : String) (byCondition : Except Exc Json)
  | check (response : Except Exc Json)
  /-- `refresh_settlements` raises. -/
  | raise (e : Raised)
  | weigh
  | conclude
  /-- The process stops, or an exception leaves the call. -/
  | crash

/-- What is committed with a record, and what follows. -/
def BootstrapPc.commit (wallet : Wallet) : BootstrapPc → Option (BootstrapRecord × BootstrapPc)
  | .maturing record => some (record, .idle (some record))
  | .rolling b => some (b.record wallet, b.reserve)
  | .reserving b => some (b.record wallet, .awaitTrades b)
  | .advancing b short => some (b.record wallet, .throttling b short)
  | .reservingMarkets d => some (d.b.record wallet, .calling d)
  | .ending record => some (record, .idle (some record))
  | _ => none

/-- The first lookup returned `None`. -/
def missed (tx : Text) (market : Market) (byCondition : Except Exc Json) : Bool :=
  match getGammaMarket tx market.conditionId byCondition with
  | .ok none => true
  | _ => false

/-- Whether `get_trades` is called on the way here. -/
def BootstrapPc.calls : BootstrapPc → Nat
  | .awaitTrades _ => 1
  | _ => 0

namespace Bootstrap

def goto (s : Bootstrap) (pc : BootstrapPc) : Bootstrap := { s with pc := pc }

/-- A call of `ingest_trade_rows` and its commit. -/
def store (tx : Text) (env : PageEnv) (walletId : Nat) (s : Bootstrap) (raw : List Json)
    (after : Ingested → BootstrapPc) : Bootstrap :=
  match ingestTradeRows tx env false walletId raw s.db with
  | .error _ => s.goto (.idle none)
  | .ok r =>
    { s with
      db := r.db
      handed := s.handed ++ raw
      quarantined := s.quarantined ++ r.quarantined
      pc := after r }

/-- The commit of a market that was looked up. -/
def check (tx : Text) (s : Bootstrap) (d : Discovery) (job : Job)
    (market : Market) (asset : Option String) (r : Responses) : Option Bootstrap :=
  match checkMarket tx job.now s.db market asset r job.stats with
  | .raised => none
  | .committed db stats stop =>
    some { s with
      db := db
      pc := if stop then d.finish stats else d.look { job with stats := stats } }

def next (tx : Text) (wallet : Wallet) (s : Bootstrap) : BootstrapEvent → Option Bootstrap
  | .begin cfg now => match s.pc with
    | .idle _ => some (s.goto (.selecting cfg now))
    | _ => none
  | .select => match s.pc with
    | .selecting cfg now =>
      let state := s.records.getLast?
      if state.any BootstrapRecord.maturitySatisfied then some (s.goto (.idle state))
      else some (s.goto (.gauging cfg now state))
    | _ => none
  | .gauge => match s.pc with
    | .gauging cfg now state =>
      some (s.goto (gauged wallet cfg now state (s.db.evidence wallet.id)))
    | _ => none
  | .commit => (s.pc.commit wallet).map fun (record, pc) =>
    { s with records := s.records ++ [record], pc := pc, tradeCalls := s.tradeCalls + pc.calls }
  | .fetch response => match s.pc with
    | .awaitTrades b => match response with
      | .error e => some (s.goto (b.fail e))
      | .ok raw => some (s.goto ((gotTrades tx b raw).toOption.getD (.idle none)))
    | _ => none
  | .store env => match s.pc with
    | .storePage b raw short => some (store tx env wallet.id s raw (storedTrades b raw short))
    | _ => none
  | .throttle => match s.pc with
    | .throttling b short => some (s.goto (.counting b short (remainingMarkets b s.db)))
    | _ => none
  | .count => match s.pc with
    | .counting b short remaining =>
      some (s.goto (.choosing b short (marketLimit b remaining (s.db.settledCount wallet.id))))
    | _ => none
  | .choose conditionIds => match s.pc with
    | .choosing b short _ => some (s.goto (chose b short conditionIds))
    | _ => none
  | .call now rows => match s.pc with
    | .calling d =>
      if gammaBackoffActive s.db now then some (s.goto (d.finish .zero))
      else some (s.goto (d.look ⟨now, rows.map Market.id, .zero⟩))
    | _ => none
  | .lookup => match s.pc with
    | .looking d job => match job.todo with
      | [] => none
      | id :: rest => (s.db.market id).map fun market =>
        { s with
          pc := .exact d { job with todo := rest } market
          marketLookups := s.marketLookups + 1 }
    | _ => none
  | .fallback asset byCondition => match s.pc with
    | .exact d job market =>
      if missed tx market byCondition && (tradedAssetIds s.db market.id).contains asset then
        some { s with
          pc := .token d job market asset byCondition
          marketLookups := s.marketLookups + 1 }
      else none
    | _ => none
  | .check response => match s.pc with
    | .exact d job market =>
      -- a market with a traded token gets its second lookup first
      if missed tx market response && !(tradedAssetIds s.db market.id).isEmpty then none
      else s.check tx d job market none ⟨response, .ok .null⟩
    | .token d job market asset byCondition =>
      s.check tx d job market (some asset) ⟨byCondition, response⟩
    | _ => none
  | .raise e => match s.pc with
    | .calling d => some (s.goto (d.b.fail e))
    | .looking d _ => some (s.goto (d.b.fail e))
    | .exact d _ _ => some (s.goto (d.b.fail e))
    | .token d _ _ _ _ => some (s.goto (d.b.fail e))
    | _ => none
  | .weigh => match s.pc with
    | .weighing b short => some (s.goto (weighed b short (s.db.evidence wallet.id)))
    | _ => none
  | .conclude => match s.pc with
    | .closing b => some (s.goto (concluded wallet b (s.db.evidence wallet.id)))
    | _ => none
  | .crash => some (s.goto (.idle none))

end Bootstrap

/-! ## What a step does -/

/-- The discovery under way. -/
def BootstrapPc.discovery : BootstrapPc → Option Discovery
  | .calling d => some d
  | .looking d _ => some d
  | .exact d _ _ => some d
  | .token d _ _ _ _ => some d
  | _ => none

/-- The steps of `Bootstrap.next`, by where the run stands and what the event brings. -/
inductive Bootstrap.Moves (tx : Text) (wallet : Wallet) (s : Bootstrap) :
    BootstrapEvent → Bootstrap → Prop
  | begin (cfg : BootstrapSettings) (now : Time) :
      s.Moves tx wallet (.begin cfg now) (s.goto (.selecting cfg now))
  | mature (cfg : BootstrapSettings) (now : Time) (here : s.pc = .selecting cfg now) :
      s.Moves tx wallet .select (s.goto (.idle s.records.getLast?))
  | select (cfg : BootstrapSettings) (now : Time)
      (immature : s.records.getLast?.any BootstrapRecord.maturitySatisfied = false)
        (here : s.pc = .selecting cfg now) :
      s.Moves tx wallet .select (s.goto (.gauging cfg now s.records.getLast?))
  | gauge (cfg : BootstrapSettings) (now : Time) (state : Option BootstrapRecord)
      (here : s.pc = .gauging cfg now state) :
      s.Moves tx wallet .gauge (s.goto (gauged wallet cfg now state (s.db.evidence wallet.id)))
  | commit (record : BootstrapRecord) (pc : BootstrapPc)
      (here : s.pc.commit wallet = some (record, pc)) :
      s.Moves tx wallet .commit
        { s with records := s.records ++ [record], pc := pc, tradeCalls := s.tradeCalls + pc.calls }
  | failed (b : Bootstrapping) (e : Raised) (here : s.pc = .awaitTrades b) :
      s.Moves tx wallet (.fetch (.error e)) (s.goto (b.fail e))
  | malformed (b : Bootstrapping) (raw : List Json) (e : Exc)
      (raised : gotTrades tx b raw = .error e)
      (here : s.pc = .awaitTrades b) : s.Moves tx wallet (.fetch (.ok raw)) (s.goto (.idle none))
  | fetched (b : Bootstrapping) (raw : List Json) (pc : BootstrapPc)
      (got : gotTrades tx b raw = .ok pc)
      (here : s.pc = .awaitTrades b) : s.Moves tx wallet (.fetch (.ok raw)) (s.goto pc)
  | store (b : Bootstrapping) (raw : List Json) (short : Bool) (env : PageEnv)
      (here : s.pc = .storePage b raw short) :
      s.Moves tx wallet (.store env) (s.store tx env wallet.id raw (storedTrades b raw short))
  | throttle (b : Bootstrapping) (short : Bool) (here : s.pc = .throttling b short) :
      s.Moves tx wallet .throttle (s.goto (.counting b short (remainingMarkets b s.db)))
  | count (b : Bootstrapping) (short : Bool) (remaining : Nat)
      (here : s.pc = .counting b short remaining) :
      s.Moves tx wallet .count
        (s.goto (.choosing b short (marketLimit b remaining (s.db.settledCount wallet.id))))
  | choose (b : Bootstrapping) (short : Bool) (limit : Nat) (conditionIds : List String)
      (here : s.pc = .choosing b short limit) :
      s.Moves tx wallet (.choose conditionIds) (s.goto (chose b short conditionIds))
  | backedOff (d : Discovery) (now : Time) (rows : List Market) (here : s.pc = .calling d) :
      s.Moves tx wallet (.call now rows) (s.goto (d.finish .zero))
  | call (d : Discovery) (now : Time) (rows : List Market) (here : s.pc = .calling d) :
      s.Moves tx wallet (.call now rows) (s.goto (d.look ⟨now, rows.map Market.id, .zero⟩))
  | lookup (d : Discovery) (job : Job) (id : Nat) (rest : List Nat) (market : Market)
      (todo : job.todo = id :: rest) (here : s.pc = .looking d job) :
      s.Moves tx wallet .lookup
        { s with
          pc := .exact d { job with todo := rest } market
          marketLookups := s.marketLookups + 1 }
  | fallback (d : Discovery) (job : Job) (market : Market) (asset : String)
      (byCondition : Except Exc Json)
      (here : s.pc = .exact d job market) :
      s.Moves tx wallet (.fallback asset byCondition)
        { s with pc := .token d job market asset byCondition, marketLookups := s.marketLookups + 1 }
  | checkExact (d : Discovery) (job : Job) (market : Market)
      (response : Except Exc Json) (t : Bootstrap)
      (checked : s.check tx d job market none ⟨response, .ok .null⟩ = some t)
        (here : s.pc = .exact d job market) :
      s.Moves tx wallet (.check response) t
  | checkToken (d : Discovery) (job : Job) (market : Market) (asset : String)
      (byCondition response : Except Exc Json)
      (t : Bootstrap) (checked : s.check tx d job market (some asset)
        ⟨byCondition, response⟩ = some t)
      (here : s.pc = .token d job market asset byCondition) :
      s.Moves tx wallet (.check response) t
  | raise (d : Discovery) (e : Raised) (here : s.pc.discovery = some d) :
      s.Moves tx wallet (.raise e) (s.goto (d.b.fail e))
  | weigh (b : Bootstrapping) (short : Bool) (here : s.pc = .weighing b short) :
      s.Moves tx wallet .weigh (s.goto (weighed b short (s.db.evidence wallet.id)))
  | conclude (b : Bootstrapping) (here : s.pc = .closing b) :
      s.Moves tx wallet .conclude (s.goto (concluded wallet b (s.db.evidence wallet.id)))
  | crash : s.Moves tx wallet .crash (s.goto (.idle none))

theorem Bootstrap.moves_of_next {tx : Text} {wallet : Wallet} {s t : Bootstrap} {e : BootstrapEvent}
    (h : s.next tx wallet e = some t) : s.Moves tx wallet e t := by
  cases e with
  | begin cfg now =>
    simp only [Bootstrap.next] at h
    split at h
    · obtain rfl := Option.some.inj h
      exact .begin cfg now
    · cases h
  | select =>
    simp only [Bootstrap.next] at h
    split at h
    · next cfg now here =>
      split at h
      · obtain rfl := Option.some.inj h
        exact .mature cfg now here
      · next himmature =>
        obtain rfl := Option.some.inj h
        exact .select cfg now (Bool.eq_false_iff.mpr himmature) here
    · cases h
  | gauge =>
    simp only [Bootstrap.next] at h
    split at h
    · next cfg now state here =>
      obtain rfl := Option.some.inj h
      exact .gauge cfg now state here
    · cases h
  | commit =>
    obtain ⟨⟨record, pc⟩, here, rfl⟩ := Option.map_eq_some_iff.mp h
    exact .commit record pc here
  | fetch response =>
    simp only [Bootstrap.next] at h
    split at h
    · next b here =>
      split at h
      · obtain rfl := Option.some.inj h
        exact .failed b _ here
      · next raw =>
        obtain rfl := Option.some.inj h
        cases hgot : gotTrades tx b raw with
        | error e => exact .malformed b raw e hgot here
        | ok pc => exact .fetched b raw pc hgot here
    · cases h
  | store env =>
    simp only [Bootstrap.next] at h
    split at h
    · next b raw short here =>
      obtain rfl := Option.some.inj h
      exact .store b raw short env here
    · cases h
  | throttle =>
    simp only [Bootstrap.next] at h
    split at h
    · next b short here =>
      obtain rfl := Option.some.inj h
      exact .throttle b short here
    · cases h
  | count =>
    simp only [Bootstrap.next] at h
    split at h
    · next b short remaining here =>
      obtain rfl := Option.some.inj h
      exact .count b short remaining here
    · cases h
  | choose conditionIds =>
    simp only [Bootstrap.next] at h
    split at h
    · next b short limit here =>
      obtain rfl := Option.some.inj h
      exact .choose b short limit conditionIds here
    · cases h
  | call now rows =>
    simp only [Bootstrap.next] at h
    split at h
    · next d here =>
      split at h
      · obtain rfl := Option.some.inj h
        exact .backedOff d now rows here
      · obtain rfl := Option.some.inj h
        exact .call d now rows here
    · cases h
  | lookup =>
    simp only [Bootstrap.next] at h
    split at h
    · next d job here =>
      split at h
      · cases h
      · next id rest todo =>
        obtain ⟨market, -, rfl⟩ := Option.map_eq_some_iff.mp h
        exact .lookup d job id rest market todo here
    · cases h
  | fallback asset byCondition =>
    simp only [Bootstrap.next] at h
    split at h
    · next d job market here =>
      split at h
      · obtain rfl := Option.some.inj h
        exact .fallback d job market asset byCondition here
      · cases h
    · cases h
  | check response =>
    simp only [Bootstrap.next] at h
    split at h
    · next d job market here =>
      split at h
      · cases h
      · exact .checkExact d job market response t h here
    · next d job market asset byCondition here =>
      exact .checkToken d job market asset byCondition response t h here
    · cases h
  | raise e =>
    have hraise : ∀ d, s.pc.discovery = some d → some (s.goto (d.b.fail e)) = some t →
        s.Moves tx wallet (.raise e) t := by
      intro d here h
      obtain rfl := Option.some.inj h
      exact .raise d e here
    simp only [Bootstrap.next] at h
    split at h
    · next d here => exact hraise d (by rw [here]; rfl) h
    · next d job here => exact hraise d (by rw [here]; rfl) h
    · next d job market here => exact hraise d (by rw [here]; rfl) h
    · next d job market asset byCondition here => exact hraise d (by rw [here]; rfl) h
    · cases h
  | weigh =>
    simp only [Bootstrap.next] at h
    split at h
    · next b short here =>
      obtain rfl := Option.some.inj h
      exact .weigh b short here
    · cases h
  | conclude =>
    simp only [Bootstrap.next] at h
    split at h
    · next b here =>
      obtain rfl := Option.some.inj h
      exact .conclude b here
    · cases h
  | crash =>
    obtain rfl := Option.some.inj h
    exact .crash

/-! ## Runs -/

/-- What the `ORDER BY min(traded_at) … LIMIT` of the loop selects. -/
def ChosenMarkets (nullsFirst : Bool) (db : Db) (walletId : Nat) (b : Bootstrapping) (limit : Nat)
    (conditionIds : List String) : Prop :=
  ∃ l : List Market,
    l.Perm ((refreshable db ⟨some walletId, none, none⟩ b.now).filter fun m =>
      m.conditionId ∉ b.settlementChecked) ∧
    l.Pairwise (selectedBefore nullsFirst db ⟨some walletId, none, none⟩) ∧
    conditionIds = (l.take limit).map Market.conditionId

/-- The rows an event brings are those the query of the run selects. -/
def BootstrapEvent.Queried (nullsFirst : Bool) (walletId : Nat)
    (s : Bootstrap) : BootstrapEvent → Prop
  | .choose conditionIds => ∀ b short limit, s.pc = .choosing b short limit →
    ChosenMarkets nullsFirst s.db walletId b limit conditionIds
  | .call now rows => ∀ d, s.pc = .calling d →
    Selected nullsFirst s.db ⟨some walletId, none, some d.conditionIds⟩ now rows
  | _ => True

/-- `condition_id` is unique. -/
def Db.UniqueMarkets (db : Db) : Prop := (db.markets.map Market.conditionId).Nodup

/-- A commit of another process: it deletes no trade. -/
structure BootstrapElsewhere (db db' : Db) : Prop where
  trades : ∀ key, db.hasTrade key = true → db'.hasTrade key = true
  markets : db'.UniqueMarkets

end Polycopy
