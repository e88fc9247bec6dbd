import Polycopy.Ingestion.Client
import Polycopy.System

/-!
# The settlement refresh

`detect_winning_outcome` reads a result off a Gamma market or refuses to;
`checkMarket` is the body of the loop of `refresh_settlements`, up to its commit;
`RefreshStep` lets calls of it follow one another, each market one step, with an
exception or a crash possible anywhere and ingestion committing in between.
-/

namespace Polycopy

open Py

/-! ## `detect_winning_outcome` -/

/-- `p == 1`; a signaling NaN traps. -/
def isOne : Dec → Except Exc Bool
  | .nan signaling _ _ => if signaling then .error .arithmeticError else .ok false
  | d => .ok (d.value = some 1)

/-- `p < 0 or p > 1`; any NaN traps. -/
def outOfRange : Dec → Except Exc Bool
  | .nan _ _ _ => .error .arithmeticError
  | d => .ok (match d.value with
    | some q => q < 0 || 1 < q
    | none => true)

/-- The places of the prices equal to 1, from place `i` on. -/
def winnersFrom (i : Nat) : List Dec → Except Exc (List Nat)
  | [] => .ok []
  | p :: rest => do
    let won ← isOne p
    let later ← winnersFrom (i + 1) rest
    return if won then i :: later else later

def anyOutOfRange : List Dec → Except Exc Bool
  | [] => .ok false
  | p :: rest => do if ← outOfRange p then return true else anyOutOfRange rest

/-- `outcomePrices`, decoded when it is text; `none` is a `return None`. -/
def pricesRaw (tx : Text) (gamma : Dict) : Except Exc (Option Json) :=
  match gamma.get "outcomePrices" with
  | .str s => match tx.loads s with
    | .ok j => .ok (some j)
    | .error .valueError => .ok none
    | .error e => .error e
  | j => .ok (some j)

/-- The winner among parsed prices. -/
def winnerOf (tx : Text) (outcomes : Json) (prices : List Dec) : Except Exc (Option String) := do
  match ← winnersFrom 0 prices with
  | [i] =>
    if ← anyOutOfRange prices then return none
    else return some ((← outcomes.index i).text tx)
  | _ => return none

def detectWinningOutcome (tx : Text) (gamma : Dict) : Except Exc (Option String) :=
  if !(gamma.get "closed").truthy then .ok none
  else do
    let outcomes := orEmpty (gamma.get "outcomes")
    match ← pricesRaw tx gamma with
    | none => return none
    | some prices =>
      if !outcomes.truthy || !prices.truthy then return none
      else if (← outcomes.len) ≠ (← prices.len) then return none
      else match (← prices.iter).mapM Json.toDec with
        | none => return none
        | some prices => winnerOf tx outcomes prices

/-! ## Lookup -/

/-- What Gamma answers to the two requests for a market. -/
structure Responses where
  byCondition : Except Exc Json
  byToken : Except Exc Json

/-- The token ids the `LIMIT 1` query of `_first_traded_asset_id` picks one of. -/
def tradedAssetIds (db : Db) (marketId : Nat) : List String :=
  (db.trades.filter fun t => t.marketId = marketId).filterMap fun t => t.assetId.filter (· ≠ "")

/-- `_lookup_closed_gamma_market`, `asset` being the traded token found. -/
def lookupClosedGammaMarket (tx : Text) (m : Market) (asset : Option String) (r : Responses) :
    Except Exc (Option Dict × Bool) := do
  match ← getGammaMarket tx m.conditionId r.byCondition with
  | some gamma => return (some gamma, false)
  | none => match asset with
    | none => return (none, false)
    | some tokenId =>
      let gamma ← getGammaMarketByToken tx tokenId m.conditionId r.byToken
      return (gamma, gamma.isSome)

/-! ## `_backfill_market_metadata` -/

/-- The assignment of one field and `changed = True`, when there is something new. -/
def assignIf (new : Bool) (m' : Market) (m : Market × Bool) : Market × Bool :=
  if new then (m', true) else m

def backfillQuestion (tx : Text) (gamma : Dict) (m : Market × Bool) : Market × Bool :=
  let question := ((gamma.get "question").orElse (.str "")).text tx
  assignIf (question ≠ "" && question ≠ m.1.question) { m.1 with question := question } m

def backfillSlug (tx : Text) (gamma : Dict) (m : Market × Bool) : Market × Bool :=
  let slug := gamma.get "slug"
  assignIf (slug.truthy && !slug.same m.1.slug) { m.1 with slug := .str (slug.text tx) } m

def backfillOutcomes (gamma : Dict) (m : Market × Bool) : Except Exc (Market × Bool) :=
  let outcomes := gamma.get "outcomes"
  if outcomes.truthy && !outcomes.same m.1.outcomes then
    outcomes.iter.map fun l => ({ m.1 with outcomes := .arr l }, true)
  else .ok m

/-- `d == e` on two maps of texts. -/
def sameMap (d e : List (String × String)) : Bool :=
  d.length = e.length && d.all fun kv => (Keyed.find Prod.fst kv.1 e).map (·.2) = some kv.2

def backfillTokens (tx : Text) (gamma : Dict) (m : Market × Bool) : Except Exc (Market × Bool) := do
  let tokenMap ← clobTokenMap tx gamma
  let known := match m.1.clobTokenIds with
    | some d => sameMap tokenMap d
    | none => false
  return assignIf (!tokenMap.isEmpty && !known) { m.1 with clobTokenIds := some tokenMap } m

def backfillActive (gamma : Dict) (m : Market × Bool) : Market × Bool :=
  let active := (gamma.get "active").truthy
  assignIf (gamma.has "active" && active != m.1.active) { m.1 with active := active } m

def backfillClosed (gamma : Dict) (m : Market × Bool) : Market × Bool :=
  let closed := (gamma.get "closed").truthy
  assignIf (gamma.has "closed" && closed != m.1.closed) { m.1 with closed := closed } m

def backfillMarketMetadata (tx : Text) (gamma : Dict) (m : Market) :
    Except Exc (Market × Bool) := do
  let m ← backfillOutcomes gamma (backfillSlug tx gamma (backfillQuestion tx gamma (m, false)))
  let m ← backfillTokens tx gamma m
  return backfillClosed gamma (backfillActive gamma m)

/-! ## `refresh_settlements` -/

structure RefreshStats where
  checked : Nat
  settled : Nat
  skippedAmbiguous : Nat
  notFoundOrOpen : Nat
  tokenFallbackHits : Nat
  metadataBackfilled : Nat
  errors : Nat
  deriving DecidableEq, Repr

def RefreshStats.zero : RefreshStats := ⟨0, 0, 0, 0, 0, 0, 0⟩

structure Filters where
  walletId : Option Nat
  maxMarkets : Option Nat
  conditionIds : Option (List String)

def gammaBackoffActive (db : Db) (now : Time) : Bool :=
  match db.gammaThrottle with
  | none => false
  | some due => now < due

def Market.due (now : Time) (m : Market) : Bool :=
  match m.settlementNextCheckAt with
  | none => true
  | some next => next ≤ now

def tradedBy (db : Db) (walletId : Nat) (m : Market) : List Time :=
  (db.trades.filter fun t => t.marketId = m.id && t.walletId = walletId).map Trade.tradedAt

/-- The `WHERE` of the selection. -/
def refreshable (db : Db) (filters : Filters) (now : Time) : List Market :=
  db.markets.filter fun m =>
    (db.settlement m.id).isNone && m.due now &&
    (match filters.conditionIds with
      | none => true
      | some ids => ids.contains m.conditionId) &&
    match filters.walletId with
    | none => true
    | some walletId => !(tradedBy db walletId m).isEmpty

/-- The `ORDER BY`: the wallet's first trade, else the time of the next check, where the
database puts `NULL` first or last. -/
def selectedBefore (nullsFirst : Bool) (db : Db) (filters : Filters) (a b : Market) : Prop :=
  match filters.walletId with
  | some walletId => ∀ t ∈ tradedBy db walletId b, ∃ t' ∈ tradedBy db walletId a, t' ≤ t
  | none => match a.settlementNextCheckAt, b.settlementNextCheckAt with
    | some s, some t => s < t ∨ (s = t ∧ a.id ≤ b.id)
    | none, none => a.id ≤ b.id
    | none, some _ => nullsFirst = true
    | some _, none => nullsFirst = false

def Selected (nullsFirst : Bool) (db : Db) (filters : Filters) (now : Time)
    (rows : List Market) : Prop :=
  ∃ l : List Market, l.Perm (refreshable db filters now) ∧
    l.Pairwise (selectedBefore nullsFirst db filters) ∧
    rows = match filters.maxMarkets with
      | none => l
      | some n => l.take n

/-- Seconds to the next check after so many attempts. -/
def retryDelay (attempts : Nat) : ℚ := (min (12 * 3600) (60 * 2 ^ min (attempts - 1) 10) : Nat)

def Market.attempted (now : Time) (m : Market) : Market :=
  { m with
    settlementLastCheckedAt := some now
    settlementAttemptCount := m.settlementAttemptCount + 1
    settlementNextCheckAt := some (now + retryDelay (m.settlementAttemptCount + 1)) }

/-- The `UPDATE` of a row; its key and condition are never assigned. -/
def Market.write (m row : Market) : Market :=
  { m with id := row.id, conditionId := row.conditionId }

/-- How the body of the loop ends for one market: an exception leaves the call, a commit goes on
with the next market or, after a 429, stops. -/
inductive Checked
  | raised
  | committed (db : Db) (stats : RefreshStats) (stop : Bool)

def failedCheck (now : Time) (db : Db) (m : Market) (stats : RefreshStats)
    (retryAfter : Option ℚ) : Checked :=
  let stats := { stats with errors := stats.errors + 1 }
  match retryAfter with
  | none => .committed (updateMarket m.id m.write db) stats false
  | some seconds =>
    let m := { m with
      settlementNextCheckAt := some (now + max (retryDelay m.settlementAttemptCount) seconds) }
    .committed { updateMarket m.id m.write db with
      gammaThrottle := some (max (db.gammaThrottle.getD now) (now + seconds)) } stats true

def foundMarket (tx : Text) (db : Db) (m : Market) (stats : RefreshStats)
    (gamma : Dict) (usedTokenFallback : Bool) :
    Checked :=
  let stats := if usedTokenFallback then { stats with
    tokenFallbackHits := stats.tokenFallbackHits + 1 } else stats
  match backfillMarketMetadata tx gamma m with
  | .error _ => .raised
  | .ok (m, metadataChanged) =>
    let stats := if metadataChanged then { stats with
      metadataBackfilled := stats.metadataBackfilled + 1 } else stats
    match detectWinningOutcome tx gamma with
    | .error _ => .raised
    | .ok none =>
      let stats := if (gamma.get "closed").truthy then
      { stats with skippedAmbiguous := stats.skippedAmbiguous + 1 } else stats
      .committed (updateMarket m.id m.write db) stats false
    | .ok (some winner) =>
      let m := { m with
        closed := true, resolvedOutcome := some winner, settlementNextCheckAt := none }
      .committed { updateMarket m.id m.write db with
        settlements := db.settlements ++ [⟨m.id, winner⟩] }
        { stats with settled := stats.settled + 1 } false

/-- The body of the loop. -/
def checkMarket (tx : Text) (now : Time) (db : Db) (m : Market)
    (asset : Option String) (r : Responses) (stats : RefreshStats) : Checked :=
  let stats := { stats with checked := stats.checked + 1 }
  let m := m.attempted now
  match lookupClosedGammaMarket tx m asset r with
  | .error (.apiError retryAfter) => failedCheck now db m stats retryAfter
  | .error .valueError => failedCheck now db m stats none
  | .error _ => .raised
  | .ok (none, _) =>
    .committed (updateMarket m.id m.write db)
      { stats with notFoundOrOpen := stats.notFoundOrOpen + 1 } false
  | .ok (some gamma, usedTokenFallback) => foundMarket tx db m stats gamma usedTokenFallback

/-! ## Calls one after another -/

/-- A call under way: its `now`, the rest of `markets`, its counts. -/
structure Job where
  now : Time
  todo : List Nat
  stats : RefreshStats

structure Refresher where
  db : Db
  job : Option Job

inductive RefreshEvent
  | ingestTrade | ingestMarket
  | call (filters : Filters) (now : Time)
  | check (marketId : Nat) (asset : Option String) (r : Responses)
  | ended | abort

/-- The query for a traded token found one, or there is none. -/
def AssetFound (db : Db) (marketId : Nat) : Option String → Prop
  | some a => a ∈ tradedAssetIds db marketId
  | none => tradedAssetIds db marketId = []

inductive RefreshStep (tx : Text) (nullsFirst : Bool) (s : Refresher) :
    RefreshEvent → Refresher → Prop
  | ingestTrade (t : Trade) :
      RefreshStep tx nullsFirst s .ingestTrade
        { s with db := { s.db with trades := s.db.trades ++ [t] } }
  | ingestMarket (m : Market) (id : ∀ m' ∈ s.db.markets, m'.id ≠ m.id)
      (key : ∀ m' ∈ s.db.markets, m'.conditionId ≠ m.conditionId) :
      RefreshStep tx nullsFirst s .ingestMarket
        { s with db := { s.db with markets := s.db.markets ++ [m] } }
  -- no condition ids to look for, or the request family is cooling down
  | returned (filters : Filters) (now : Time) (idle : s.job = none)
      (h : filters.conditionIds = some [] ∨ gammaBackoffActive s.db now = true) :
      RefreshStep tx nullsFirst s (.call filters now) s
  | call (filters : Filters) (now : Time) (rows : List Market) (idle : s.job = none)
      (ids : filters.conditionIds ≠ some []) (free : gammaBackoffActive s.db now = false)
      (query : Selected nullsFirst s.db filters now rows) :
      RefreshStep tx nullsFirst s (.call filters now)
        { s with job := some ⟨now, rows.map Market.id, .zero⟩ }
  | check (j : Job) (id : Nat) (rest : List Nat) (m : Market)
      (asset : Option String) (r : Responses) (db : Db)
      (stats : RefreshStats) (stop : Bool) (job : s.job = some j) (head : j.todo = id :: rest)
      (row : s.db.market id = some m) (traded : AssetFound s.db id asset)
      (commit : checkMarket tx j.now s.db m asset r j.stats = .committed db stats stop) :
      RefreshStep tx nullsFirst s (.check id asset r)
        ⟨db, if stop then none else some { j with todo := rest, stats := stats }⟩
  | ended (j : Job) (job : s.job = some j) (done : j.todo = []) :
      RefreshStep tx nullsFirst s .ended { s with job := none }
  -- an exception at any await, or in the body of the loop, or a crash
  | abort : RefreshStep tx nullsFirst s .abort { s with job := none }

def Refresher.init : Refresher := ⟨Db.empty, none⟩

end Polycopy
