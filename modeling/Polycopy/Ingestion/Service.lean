import Polycopy.Config
import Polycopy.Ingestion.Client
import Polycopy.Ingestion.Identity

/-!
# Persisting a page of trades

`ingest_trade_rows` of `ingestion/service.py`: the rows are keyed, the stored
keys are left out, each new row is written in a savepoint of its own, and one
commit ends the call.  An exception that is no row's own leaves nothing written.
What Gamma and the database answer is `PageEnv`.  The throttled log entry about
a quarantined row is not part of the model; the row itself is.
-/

namespace Polycopy

open Py

/-- The outside world during one call, by the key of the row being written. -/
structure PageEnv where
  /-- Gamma's response to `get_gamma_market`. -/
  gamma : String → Except Exc Json
  /-- The error of the row's `flush`, if it has one. -/
  flush : String → Option Exc
  now : Time

inductive QuarantineReason
  | invalidIdentity | rowPersistenceFailed
  deriving DecidableEq, Repr

structure Quarantined where
  reason : QuarantineReason
  error : Exc
  raw : Json
  canonicalId : Option String

/-- `WalletIngestionResult`, with the rows behind the count, and the tables after the commit. -/
structure Ingested where
  db : Db
  inserted : Nat
  quarantined : List Quarantined

/-! ## One row -/

def newMarket (conditionId : String) (db : Db) : Market where
  id := Keyed.fresh Market.id db.markets
  conditionId := conditionId
  question := ""
  slug := .null
  clobTokenIds := none
  outcomes := .null
  active := true
  closed := false
  resolvedOutcome := none
  settlementLastCheckedAt := none
  settlementNextCheckAt := none
  settlementAttemptCount := 0

/-- `if gamma:` and the fields it sets. -/
def describe (tx : Text) (gamma : Option Dict) (market : Market) : Except Exc Market :=
  match gamma with
  | none => .ok market
  | some [] => .ok market
  | some gamma => do
    let tokenMap ← clobTokenMap tx gamma
    return { market with
      question := ((gamma.get "question").orElse (.str "")).text tx
      slug := gamma.get "slug"
      outcomes := gamma.get "outcomes"
      clobTokenIds := if tokenMap = [] then none else some tokenMap
      active := if gamma.has "active" then (gamma.get "active").truthy else true
      closed := (gamma.get "closed").truthy }

/-- The market built when the table has none; metadata is best-effort. -/
def createMarket (tx : Text) (conditionId : String) (fetchMetadata : Bool)
    (response : Except Exc Json) (db : Db) :
    Except Exc Market :=
  if fetchMetadata then
    match getGammaMarket tx conditionId response with
    | .ok gamma => describe tx gamma (newMarket conditionId db)
    | .error (.apiError _) => .ok (newMarket conditionId db)
    | .error .valueError => .ok (newMarket conditionId db)
    | .error e => .error e
  else .ok (newMarket conditionId db)

/-- `_get_or_create_market`. -/
def getOrCreateMarket (tx : Text) (conditionId : String) (fetchMetadata : Bool)
    (response : Except Exc Json) (db : Db) :
    Except Exc (Db × Market) :=
  match Keyed.find Market.conditionId conditionId db.markets with
  | some market => .ok (db, market)
  | none => do
    let market ← createMarket tx conditionId fetchMetadata response db
    return ({ db with markets := db.markets ++ [market] }, market)

/-- Half-even to a whole number of microseconds. -/
def micros (q : ℚ) : ℚ :=
  let x := q * 1000000
  let n := x.floor
  let r := x - n
  let n := if r < 1 / 2 then n else if 1 / 2 < r then n + 1 else if n % 2 = 0 then n else n + 1
  n / 1000000

/-- `_parse_traded_at`. -/
def parseTradedAt (tx : Text) (raw : Json) : Except Exc Time := do
  let ts ← raw.get "timestamp"
  if ts.isNumber then
    match ts.number?.bind Dec.value with
    | some q =>
      -- the years a `datetime` has, 1 to 9999
      if -62135596800 ≤ q ∧ q < 253402300800 then .ok (micros q) else .error .valueError
    | none => .error .valueError
  else
    match tx.fromIso (ts.text tx) with
    | some t => .ok t
    | none => .error .valueError

/-- A value for a numeric column. -/
def numeric (value : Json) : Except Exc ℚ :=
  match value.toDec.bind Dec.value with
  | some q => .ok q
  | none => .error .other

/-- The body of the savepoint. -/
def insertTrade (tx : Text) (env : PageEnv) (fetchMetadata : Bool)
    (walletId : Nat) (key : String) (raw : Json) (db : Db) : Except Exc Db := do
  let conditionId := (← raw.item "conditionId").text tx
  let (db, market) ← getOrCreateMarket tx conditionId fetchMetadata (env.gamma key) db
  let assetId := ((← raw.get "asset").orElse (.str "")).text tx
  let side := tx.upper ((← raw.item "side").text tx)
  let outcome := ((← raw.get "outcome").orElse (.str "")).text tx
  let size ← raw.item "size"
  let price ← raw.item "price"
  let tradedAt ← parseTradedAt tx raw
  let size ← numeric size
  let price ← numeric price
  match env.flush key with
  | some e => .error e
  | none => return { db with
      trades := db.trades ++ [{
        id := Keyed.fresh Trade.id db.trades
        polymarketTradeId := key
        marketId := market.id
        walletId := walletId
        assetId := some assetId
        side := .ofText side
        outcome := outcome
        size := size
        price := price
        tradedAt := tradedAt
        ingestedAt := env.now }] }

/-! ## A page -/

/-- `keyed.setdefault(key, raw)`. -/
def setDefault (key : String) (raw : Json) (keyed : List (String × Json)) : List (String × Json) :=
  if keyed.any fun kv => kv.1 = key then keyed else keyed ++ [(key, raw)]

/-- One turn of the first loop; any other exception leaves the call. -/
def keyRow (tx : Text) (acc : List (String × Json) × List Quarantined) (raw : Json) :
    Except Exc (List (String × Json) × List Quarantined) :=
  match canonicalTradeId tx raw with
  | .ok key => .ok (setDefault key raw acc.1, acc.2)
  | .error e =>
    if Unidentified e then .ok (acc.1, acc.2 ++ [⟨.invalidIdentity, e, raw, none⟩]) else .error e

/-- One turn of the second loop. -/
def writeRow (tx : Text) (env : PageEnv) (fetchMetadata : Bool) (walletId : Nat)
    (acc : Ingested) (kv : String × Json) :
    Ingested :=
  match insertTrade tx env fetchMetadata walletId kv.1 kv.2 acc.db with
  | .ok db => { acc with db := db, inserted := acc.inserted + 1 }
  | .error e =>
    { acc with quarantined := acc.quarantined ++ [⟨.rowPersistenceFailed, e, kv.2, some kv.1⟩] }

def Db.hasTrade (db : Db) (key : String) : Bool := db.trades.any fun t => t.polymarketTradeId = key

def ingestTradeRows (tx : Text) (env : PageEnv) (fetchMetadata : Bool) (walletId : Nat)
    (rows : List Json) (db : Db) :
    Except Exc Ingested := do
  let (keyed, quarantined) ← rows.foldlM (keyRow tx) ([], [])
  let fresh := keyed.filter fun kv => !db.hasTrade kv.1
  return fresh.foldl (writeRow tx env fetchMetadata walletId) ⟨db, 0, quarantined⟩

/-! ## What a call does -/

/-- The tables a row's insertion may add to, and what it adds to the trades. -/
theorem insertTrade_ok {tx : Text} {env : PageEnv} {fetchMetadata : Bool}
    {walletId : Nat} {key : String} {raw : Json} {db db' : Db}
    (h : insertTrade tx env fetchMetadata walletId key raw db = .ok db') :
    ∃ markets t, t.polymarketTradeId = key ∧ t.walletId = walletId ∧
      db' = { db with markets := markets, trades := db.trades ++ [t] } := by
  obtain ⟨j1, -, h⟩ := bind_ok h
  obtain ⟨⟨db₁, market⟩, hmarket, h⟩ := bind_ok h
  have hdb : ∃ markets, db₁ = { db with markets := markets } := by
    unfold getOrCreateMarket at hmarket
    split at hmarket
    · obtain ⟨rfl, -⟩ := Prod.mk.inj (Except.ok.inj hmarket)
      exact ⟨db.markets, rfl⟩
    · obtain ⟨m, -, hmarket⟩ := bind_ok hmarket
      obtain ⟨rfl, -⟩ := Prod.mk.inj (Except.ok.inj hmarket)
      exact ⟨_, rfl⟩
  obtain ⟨markets, rfl⟩ := hdb
  obtain ⟨j2, -, h⟩ := bind_ok h
  obtain ⟨j3, -, h⟩ := bind_ok h
  obtain ⟨j4, -, h⟩ := bind_ok h
  obtain ⟨j5, -, h⟩ := bind_ok h
  obtain ⟨j6, -, h⟩ := bind_ok h
  obtain ⟨tradedAt, -, h⟩ := bind_ok h
  obtain ⟨size, -, h⟩ := bind_ok h
  obtain ⟨price, -, h⟩ := bind_ok h
  split at h
  · cases h
  · obtain rfl := Except.ok.inj h
    exact ⟨markets, _, rfl, rfl, rfl⟩

/-- A key of the page is kept unless the same key was met before. -/
theorem setDefault_mem (key : String) (raw : Json) (keyed : List (String × Json)) :
    ∃ raw', (key, raw') ∈ setDefault key raw keyed := by
  unfold setDefault
  split
  · next h =>
    obtain ⟨kv, hmem, hkey⟩ := List.any_eq_true.mp h
    have hkey : kv.1 = key := by simpa using hkey
    exact ⟨kv.2, hkey ▸ hmem⟩
  · exact ⟨raw, List.mem_append_right _ (List.mem_singleton_self _)⟩

theorem setDefault_of_mem {key : String} {raw : Json}
    {keyed : List (String × Json)} {kv : String × Json}
    (h : kv ∈ keyed) : kv ∈ setDefault key raw keyed := by
  unfold setDefault
  split
  · exact h
  · exact List.mem_append_left _ h

theorem keyRow_mono {tx : Text} {acc acc' : List (String × Json) × List Quarantined} {raw : Json}
    (h : keyRow tx acc raw = .ok acc') : (∀ kv ∈ acc.1, kv ∈ acc'.1) ∧
      ∀ key, canonicalTradeId tx raw = .ok key → ∃ raw', (key, raw') ∈ acc'.1 := by
  unfold keyRow at h
  split at h
  · next key hkey =>
    obtain rfl := Except.ok.inj h
    refine ⟨fun kv hkv => setDefault_of_mem hkv, fun key' hkey' => ?_⟩
    obtain rfl := Except.ok.inj (hkey'.symm.trans hkey)
    exact setDefault_mem _ raw acc.1
  · next e hkey =>
    split at h
    · obtain rfl := Except.ok.inj h
      refine ⟨fun kv hkv => hkv, fun key hkey' => ?_⟩
      rw [hkey] at hkey'
      cases hkey'
    · cases h

theorem keyed_of_mem {tx : Text} : ∀ {rows : List Json}
    {acc acc' : List (String × Json) × List Quarantined},
    rows.foldlM (keyRow tx) acc = .ok acc' → (∀ kv ∈ acc.1, kv ∈ acc'.1) ∧
      ∀ raw ∈ rows, ∀ key, canonicalTradeId tx raw = .ok key → ∃ raw', (key, raw') ∈ acc'.1 := by
  intro rows
  induction rows with
  | nil =>
    intro acc acc' h
    obtain rfl := Except.ok.inj h
    exact ⟨fun kv hkv => hkv, fun raw hraw => (List.not_mem_nil hraw).elim⟩
  | cons row rows ih =>
    intro acc acc' h
    rw [List.foldlM_cons] at h
    obtain ⟨mid, hmid, h⟩ := bind_ok h
    obtain ⟨hkeep, hrow⟩ := keyRow_mono hmid
    obtain ⟨hkeep', hrows⟩ := ih h
    refine ⟨fun kv hkv => hkeep' kv (hkeep kv hkv), fun raw hraw key hkey => ?_⟩
    rcases List.mem_cons.mp hraw with rfl | hraw
    · obtain ⟨raw', hmem⟩ := hrow key hkey
      exact ⟨raw', hkeep' _ hmem⟩
    · exact hrows raw hraw key hkey

/-- Stored, or among the rows quarantined. -/
def Accounted (db : Db) (quarantined : List Quarantined) (key : String) : Prop :=
  db.hasTrade key = true ∨ ∃ q ∈ quarantined, q.canonicalId = some key

/-- What the writes of a call leave alone: trades are added only, the other tables but the
markets are as they were. -/
structure Written (db : Db) (r : Ingested) : Prop where
  trades : ∃ new, r.db.trades = db.trades ++ new
  rest : ∃ markets trades, r.db = { db with markets := markets, trades := trades }

theorem Written.hasTrade {db : Db} {r : Ingested} (h : Written db r) {key : String}
    (hk : db.hasTrade key = true) :
    r.db.hasTrade key = true := by
  obtain ⟨new, hnew⟩ := h.trades
  unfold Db.hasTrade at *
  rw [hnew, List.any_append, hk, Bool.true_or]

theorem Written.trans {db : Db} {r r' : Ingested} (h : Written db r)
    (h' : Written r.db r') : Written db r' := by
  obtain ⟨new, hnew⟩ := h.trades
  obtain ⟨new', hnew'⟩ := h'.trades
  obtain ⟨markets, trades, hr⟩ := h.rest
  obtain ⟨markets', trades', hr'⟩ := h'.rest
  refine ⟨⟨new ++ new', by rw [hnew', hnew, List.append_assoc]⟩, markets', trades', ?_⟩
  rw [hr', hr]

theorem writeRow_written (tx : Text) (env : PageEnv) (fetchMetadata : Bool)
    (walletId : Nat) (acc : Ingested)
    (kv : String × Json) : Written acc.db (writeRow tx env fetchMetadata walletId acc kv) ∧
      (∀ q ∈ acc.quarantined, q ∈ (writeRow tx env fetchMetadata walletId acc kv).quarantined) ∧
      Accounted (writeRow tx env fetchMetadata walletId acc kv).db
        (writeRow tx env fetchMetadata walletId acc kv).quarantined kv.1 := by
  unfold writeRow
  split
  · next db hins =>
    obtain ⟨markets, t, hkey, -, rfl⟩ := insertTrade_ok hins
    refine ⟨⟨⟨[t], rfl⟩, markets, acc.db.trades ++ [t], rfl⟩, fun q hq => hq, .inl ?_⟩
    show (acc.db.trades ++ [t]).any (fun t => t.polymarketTradeId = kv.1) = true
    rw [List.any_append]
    simp [hkey]
  · next e hins =>
    refine ⟨⟨⟨[], (List.append_nil _).symm⟩, acc.db.markets, acc.db.trades, rfl⟩, ?_, .inr ?_⟩
    · exact fun q hq => List.mem_append_left _ hq
    · exact ⟨_, List.mem_append_right _ (List.mem_singleton_self _), rfl⟩

theorem Accounted.later {tx : Text} {env : PageEnv} {fetchMetadata : Bool}
    {walletId : Nat} {acc : Ingested} {kv : String × Json} {key : String}
    (h : Accounted acc.db acc.quarantined key) :
    Accounted (writeRow tx env fetchMetadata walletId acc kv).db
      (writeRow tx env fetchMetadata walletId acc kv).quarantined key := by
  obtain ⟨hwritten, hquarantined, -⟩ := writeRow_written tx env fetchMetadata walletId acc kv
  rcases h with h | ⟨q, hq, hkey⟩
  · exact .inl (hwritten.hasTrade h)
  · exact .inr ⟨q, hquarantined q hq, hkey⟩

theorem writeRows_written (tx : Text) (env : PageEnv) (fetchMetadata : Bool) (walletId : Nat) :
    ∀ (fresh : List (String × Json)) (acc : Ingested),
      Written acc.db (fresh.foldl (writeRow tx env fetchMetadata walletId) acc) ∧
      ∀ key, Accounted acc.db acc.quarantined key ∨ (∃ raw, (key, raw) ∈ fresh) →
        Accounted (fresh.foldl (writeRow tx env fetchMetadata walletId) acc).db
          (fresh.foldl (writeRow tx env fetchMetadata walletId) acc).quarantined key := by
  intro fresh
  induction fresh with
  | nil =>
    intro acc
    refine ⟨⟨⟨[], (List.append_nil _).symm⟩, acc.db.markets, acc.db.trades, rfl⟩, ?_⟩
    rintro key (h | ⟨raw, hmem⟩)
    · exact h
    · exact (List.not_mem_nil hmem).elim
  | cons kv fresh ih =>
    intro acc
    obtain ⟨hwritten, -, hkv⟩ := writeRow_written tx env fetchMetadata walletId acc kv
    obtain ⟨hrest, haccounted⟩ := ih (writeRow tx env fetchMetadata walletId acc kv)
    refine ⟨hwritten.trans hrest, ?_⟩
    rintro key (h | ⟨raw, hmem⟩)
    · exact haccounted key (.inl h.later)
    · rcases List.mem_cons.mp hmem with rfl | hmem
      · exact haccounted _ (.inl hkv)
      · exact haccounted key (.inr ⟨raw, hmem⟩)

/-- A call that returns has committed every identified row of its page, or quarantined it. -/
theorem ingestTradeRows_ok {tx : Text} {env : PageEnv} {fetchMetadata : Bool}
    {walletId : Nat} {rows : List Json} {db : Db} {r : Ingested}
    (h : ingestTradeRows tx env fetchMetadata walletId rows db = .ok r) :
    Written db r ∧
      ∀ raw ∈ rows, ∀ key, canonicalTradeId tx raw = .ok key →
      Accounted r.db r.quarantined key := by
  obtain ⟨⟨keyed, quarantined⟩, hkeyed, h⟩ := bind_ok h
  obtain rfl := Except.ok.inj h
  obtain ⟨-, hrows⟩ := keyed_of_mem hkeyed
  obtain ⟨hwritten, haccounted⟩ := writeRows_written tx env fetchMetadata walletId
    (keyed.filter fun kv => !db.hasTrade kv.1) ⟨db, 0, quarantined⟩
  refine ⟨hwritten, fun raw hraw key hkey => ?_⟩
  obtain ⟨raw', hmem⟩ := hrows raw hraw key hkey
  by_cases hstored : db.hasTrade key = true
  · exact haccounted key (.inl (.inl hstored))
  · refine haccounted key (.inr ⟨raw', List.mem_filter.mpr ⟨hmem, ?_⟩⟩)
    simpa using hstored

end Polycopy
