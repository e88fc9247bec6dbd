import Polycopy.Ingestion.CatchUp
import Polycopy.Ingestion.Idempotent

/-!
# Bad rows on a page

The rows of a page are any JSON values.  `Upstream` answers for each row on its
own, so that rows sharing a key may still differ, and `ingestPage` is
`ingest_trade_rows` with the query for the stored keys, which the driver refuses
when it cannot take a key's text.

A row is well-formed when it has a key and would be inserted (`WellFormedRow`).
A call stores the keys whose first row on the page is well-formed, and
quarantines other rows only (`ingestPage_spec`); so every well-formed row gets
in exactly on the pages that are `Clean`.
-/

namespace Polycopy

open Py

/-- What Gamma and the database answer to the rows of a page. -/
structure Upstream where
  /-- Gamma's response, by condition id. -/
  gamma : String → Except Exc Json
  /-- The error of the row's own `flush`, if it has one. -/
  refuses : Json → Option Exc
  /-- The driver takes the text as a parameter. -/
  binds : String → Bool
  now : Time

/-- The row that `setdefault` leaves under a key. -/
def firstRow (tx : Text) (rows : List Json) (key : String) : Option Json :=
  rows.find? fun raw => (canonicalTradeId tx raw).toOption = some key

def conditionText (tx : Text) (raw : Json) : String :=
  match raw.item "conditionId" with
  | .ok j => j.text tx
  | .error _ => ""

namespace Upstream

/-- The answers during the insertion of one row. -/
def row (u : Upstream) (tx : Text) (raw : Json) : PageEnv where
  gamma _ := u.gamma (conditionText tx raw)
  flush _ := u.refuses raw
  now := u.now

/-- The answers during a page, under the key each row is written with. -/
def page (u : Upstream) (tx : Text) (rows : List Json) : PageEnv where
  gamma key := match firstRow tx rows key with
    | some raw => u.gamma (conditionText tx raw)
    | none => .error .other
  flush key := (firstRow tx rows key).bind u.refuses
  now := u.now

end Upstream

def ingestPage (tx : Text) (u : Upstream) (fetchMetadata : Bool) (walletId : Nat)
    (rows : List Json) (db : Db) :
    Except Exc Ingested := do
  let (keyed, _) ← rows.foldlM (keyRow tx) ([], [])
  if keyed.all fun kv => u.binds kv.1 then
    ingestTradeRows tx (u.page tx rows) fetchMetadata walletId rows db
  else .error .other

/-! ## Inserting a row -/

section
variable {tx : Text}

/-- Only the answers under the row's key are asked for. -/
theorem insertTrade_env {env env' : PageEnv} {fetchMetadata : Bool} {walletId : Nat}
    {key : String} {raw : Json} {db : Db} (hgamma : env.gamma key = env'.gamma key)
    (hflush : env.flush key = env'.flush key) (hnow : env.now = env'.now) :
    insertTrade tx env fetchMetadata walletId key raw db =
      insertTrade tx env' fetchMetadata walletId key raw db := by
  unfold insertTrade
  rw [hgamma, hflush, hnow]

/-- Whether a market can be made does not depend on the tables. -/
theorem createMarket_total {conditionId : String} {fetchMetadata : Bool}
    {response : Except Exc Json} {db : Db} {m : Market}
    (h : createMarket tx conditionId fetchMetadata response db = .ok m) (db' : Db) :
    m.conditionId = conditionId ∧ ∃ m',
    createMarket tx conditionId fetchMetadata response db' = .ok m' := by
  have hdescribe : ∀ {gamma : Option Dict} {m : Market},
      describe tx gamma (newMarket conditionId db) = .ok m →
      m.conditionId = conditionId ∧ ∃ m',
      describe tx gamma (newMarket conditionId db') = .ok m' := by
    intro gamma m h
    unfold describe at h ⊢
    split at h
    · obtain rfl := Except.ok.inj h
      exact ⟨rfl, _, rfl⟩
    · obtain rfl := Except.ok.inj h
      exact ⟨rfl, _, rfl⟩
    · obtain ⟨tokenMap, htokens, h⟩ := bind_ok h
      obtain rfl := Except.ok.inj h
      refine ⟨rfl, ?_⟩
      rw [htokens]
      exact ⟨_, rfl⟩
  unfold createMarket at h ⊢
  split at h
  · next hfetch =>
    rw [if_pos hfetch]
    split at h
    · exact hdescribe h
    · obtain rfl := Except.ok.inj h
      exact ⟨rfl, _, rfl⟩
    · obtain rfl := Except.ok.inj h
      exact ⟨rfl, _, rfl⟩
    · cases h
  · next hfetch =>
    rw [if_neg hfetch]
    obtain rfl := Except.ok.inj h
    exact ⟨rfl, _, rfl⟩

/-- The market of a condition id is in the table or can be made. -/
def MarketReady (tx : Text) (u : Upstream) (fetchMetadata : Bool) (db : Db)
    (conditionId : String) : Prop :=
  ∃ r, getOrCreateMarket tx conditionId fetchMetadata (u.gamma conditionId) db = .ok r

theorem marketReady_iff {u : Upstream} {fetchMetadata : Bool} {db : Db} {conditionId : String} :
    MarketReady tx u fetchMetadata db conditionId ↔
      (∃ m, Keyed.find Market.conditionId conditionId db.markets = some m) ∨
        ∃ m, createMarket tx conditionId fetchMetadata (u.gamma conditionId) db = .ok m := by
  unfold MarketReady getOrCreateMarket
  cases hfind : Keyed.find Market.conditionId conditionId db.markets with
  | some m => exact iff_of_true ⟨_, rfl⟩ (.inl ⟨m, rfl⟩)
  | none =>
    constructor
    · rintro ⟨r, hr⟩
      obtain ⟨m, hm, -⟩ := bind_ok hr
      exact .inr ⟨m, hm⟩
    · rintro (⟨m, hm⟩ | ⟨m, hm⟩)
      · cases hm
      · exact ⟨_, by dsimp only; rw [hm]; rfl⟩

/-- The tables of a later moment of the call have markets ready for the same ids. -/
def SameMarkets (tx : Text) (u : Upstream) (fetchMetadata : Bool) (db db' : Db) : Prop :=
  ∀ conditionId, MarketReady tx u fetchMetadata db' conditionId ↔
    MarketReady tx u fetchMetadata db conditionId

section
variable {u : Upstream} {fetchMetadata : Bool} {walletId : Nat}
  {key : String} {raw : Json} {db : Db}

theorem conditionText_eq {j : Json} (h : raw.item "conditionId" = .ok j) :
    conditionText tx raw = j.text tx := by
  unfold conditionText
  rw [h]

theorem insertTrade_ready {d : Db}
    (h : insertTrade tx (u.row tx raw) fetchMetadata walletId key raw db = .ok d) :
    MarketReady tx u fetchMetadata db (conditionText tx raw) := by
  obtain ⟨j, hj, h⟩ := bind_ok h
  obtain ⟨r, hr, -⟩ := bind_ok h
  refine ⟨r, ?_⟩
  rw [conditionText_eq hj]
  change getOrCreateMarket tx (j.text tx) fetchMetadata
    (u.gamma (conditionText tx raw)) db = .ok r at hr
  rwa [conditionText_eq hj] at hr

/-- Apart from the market, a row's insertion does not look at the tables. -/
theorem insertTrade_transport {d db' : Db}
    (h : insertTrade tx (u.row tx raw) fetchMetadata walletId key raw db = .ok d)
    (hready : MarketReady tx u fetchMetadata db' (conditionText tx raw)) :
    ∃ d', insertTrade tx (u.row tx raw) fetchMetadata walletId key raw db' = .ok d' := by
  obtain ⟨j, hj, h⟩ := bind_ok h
  obtain ⟨r, -, h⟩ := bind_ok h
  obtain ⟨asset, hasset, h⟩ := bind_ok h
  obtain ⟨side, hside, h⟩ := bind_ok h
  obtain ⟨outcome, houtcome, h⟩ := bind_ok h
  obtain ⟨size, hsize, h⟩ := bind_ok h
  obtain ⟨price, hprice, h⟩ := bind_ok h
  obtain ⟨tradedAt, htraded, h⟩ := bind_ok h
  obtain ⟨q, hq, h⟩ := bind_ok h
  obtain ⟨p, hp, h⟩ := bind_ok h
  obtain ⟨r', hr'⟩ := hready
  rw [conditionText_eq hj] at hr'
  have hmarket : getOrCreateMarket tx (j.text tx) fetchMetadata
      ((u.row tx raw).gamma key) db' = .ok r' := by
    show getOrCreateMarket tx (j.text tx) fetchMetadata (u.gamma (conditionText tx raw)) db' = .ok r'
    rw [conditionText_eq hj]
    exact hr'
  cases hflush : (u.row tx raw).flush key with
  | some e =>
    rw [hflush] at h
    cases h
  | none =>
    unfold insertTrade
    simp only [hj, hmarket, hasset, hside, houtcome, hsize, hprice, htraded, hq,
      hp, hflush, bind, Except.bind]
    exact ⟨_, rfl⟩

/-- What an insertion adds: the trade, and the market of its condition id when there was none. -/
theorem insertTrade_added {d : Db}
    (h : insertTrade tx (u.row tx raw) fetchMetadata walletId key raw db = .ok d) :
    (∃ t, t.polymarketTradeId = key ∧ d.trades = db.trades ++ [t]) ∧
      (d.markets = db.markets ∨ ∃ m, m.conditionId = conditionText tx raw ∧
        createMarket tx (conditionText tx raw) fetchMetadata
          (u.gamma (conditionText tx raw)) db = .ok m ∧
        d.markets = db.markets ++ [m]) := by
  obtain ⟨j, hj, h⟩ := bind_ok h
  obtain ⟨⟨db₁, market⟩, hmarket, h⟩ := bind_ok h
  have hdb : db₁.trades = db.trades ∧
      (db₁.markets = db.markets ∨ ∃ m, m.conditionId = conditionText tx raw ∧
        createMarket tx (conditionText tx raw) fetchMetadata
          (u.gamma (conditionText tx raw)) db = .ok m ∧
        db₁.markets = db.markets ++ [m]) := by
    change getOrCreateMarket tx (j.text tx) fetchMetadata
      (u.gamma (conditionText tx raw)) db = _ at hmarket
    rw [← conditionText_eq hj] at hmarket
    unfold getOrCreateMarket at hmarket
    split at hmarket
    · obtain ⟨rfl, -⟩ := Prod.mk.inj (Except.ok.inj hmarket)
      exact ⟨rfl, .inl rfl⟩
    · obtain ⟨m, hm, hmarket⟩ := bind_ok hmarket
      obtain ⟨rfl, -⟩ := Prod.mk.inj (Except.ok.inj hmarket)
      exact ⟨rfl, .inr ⟨m, (createMarket_total hm db).1, hm, rfl⟩⟩
  obtain ⟨j2, -, h⟩ := bind_ok h
  obtain ⟨j3, -, h⟩ := bind_ok h
  obtain ⟨j4, -, h⟩ := bind_ok h
  obtain ⟨j5, -, h⟩ := bind_ok h
  obtain ⟨j6, -, h⟩ := bind_ok h
  obtain ⟨tradedAt, -, h⟩ := bind_ok h
  obtain ⟨size, -, h⟩ := bind_ok h
  obtain ⟨price, -, h⟩ := bind_ok h
  split at h
  · cases h
  · obtain rfl := Except.ok.inj h
    refine ⟨⟨_, ?_, congrArg (· ++ [_]) hdb.1⟩, hdb.2⟩
    rfl

/-- An insertion makes no other market ready. -/
theorem insertTrade_sameMarkets {d : Db}
    (h : insertTrade tx (u.row tx raw) fetchMetadata walletId key raw db = .ok d) :
    SameMarkets tx u fetchMetadata db d := by
  intro cid
  rw [marketReady_iff, marketReady_iff]
  have hmade : (∃ m, createMarket tx cid fetchMetadata (u.gamma cid) d = .ok m) ↔
      ∃ m, createMarket tx cid fetchMetadata (u.gamma cid) db = .ok m :=
    ⟨fun ⟨_, hm⟩ => (createMarket_total hm db).2, fun ⟨_, hm⟩ => (createMarket_total hm d).2⟩
  rw [hmade]
  rcases (insertTrade_added h).2 with hsame | ⟨m, hid, hm, hadd⟩
  · rw [hsame]
  · rw [hadd, Keyed.find_append]
    constructor
    · rintro (⟨m', hfound⟩ | hc)
      · rcases Option.or_eq_some_iff.mp hfound with hold | ⟨-, hnew⟩
        · exact .inl ⟨m', hold⟩
        · obtain ⟨hmem, hkey⟩ := Keyed.find_some Market.conditionId hnew
          rw [List.mem_singleton.mp hmem, hid] at hkey
          subst hkey
          exact .inr ⟨m, hm⟩
      · exact .inr hc
    · rintro (⟨m', hfound⟩ | hc)
      · exact .inl ⟨m', by rw [hfound]; rfl⟩
      · exact .inr hc

/-- The row would be inserted into these tables. -/
def Inserts (tx : Text) (u : Upstream) (fetchMetadata : Bool) (walletId : Nat)
    (db : Db) (key : String) (raw : Json) :
    Prop :=
  ∃ d, insertTrade tx (u.row tx raw) fetchMetadata walletId key raw db = .ok d

theorem inserts_iff {db' : Db} (h : SameMarkets tx u fetchMetadata db db') :
    Inserts tx u fetchMetadata walletId db' key raw ↔
    Inserts tx u fetchMetadata walletId db key raw :=
  ⟨fun ⟨_, hd⟩ => insertTrade_transport hd ((h _).mp (insertTrade_ready hd)),
    fun ⟨_, hd⟩ => insertTrade_transport hd ((h _).mpr (insertTrade_ready hd))⟩

end

/-! ## The second loop -/

theorem page_insert {u : Upstream} {fetchMetadata : Bool} {walletId : Nat}
    {rows : List Json} {db : Db} {key : String} {raw : Json}
    (h : firstRow tx rows key = some raw) :
    insertTrade tx (u.page tx rows) fetchMetadata walletId key raw db =
      insertTrade tx (u.row tx raw) fetchMetadata walletId key raw db := by
  refine insertTrade_env ?_ ?_ rfl
  · unfold Upstream.page Upstream.row
    dsimp only
    rw [h]
  · unfold Upstream.page Upstream.row
    dsimp only
    rw [h]
    rfl

/-- The second loop on `fresh`: the keys whose rows insert are stored, the other
rows are quarantined. -/
structure WroteRows (tx : Text) (u : Upstream) (fetchMetadata : Bool) (walletId : Nat) (db : Db)
    (fresh : List (String × Json)) (acc r : Ingested) : Prop where
  stored : ∀ key, key ∈ tradeKeys r.db ↔
    key ∈ tradeKeys acc.db ∨ ∃ raw, (key, raw) ∈ fresh ∧
    Inserts tx u fetchMetadata walletId db key raw
  sound : ∀ q ∈ r.quarantined,
    q ∈ acc.quarantined ∨ ∃ key, (key, q.raw) ∈ fresh ∧
    ¬ Inserts tx u fetchMetadata walletId db key q.raw
  kept : ∀ q ∈ acc.quarantined, q ∈ r.quarantined
  counted : ∀ kv ∈ fresh, ¬ Inserts tx u fetchMetadata walletId db kv.1 kv.2 →
    ∃ q ∈ r.quarantined, q.raw = kv.2

section
variable {u : Upstream} {fetchMetadata : Bool} {walletId : Nat} {db : Db} {kv : String × Json}
  {fresh : List (String × Json)} {acc r : Ingested}

/-- A row that inserts, before the others. -/
theorem WroteRows.inserted {d : Db} (hkeys : tradeKeys d = tradeKeys acc.db ++ [kv.1])
    (hok : Inserts tx u fetchMetadata walletId db kv.1 kv.2)
    (h : WroteRows tx u fetchMetadata walletId db fresh
      { acc with db := d, inserted := acc.inserted + 1 } r) :
    WroteRows tx u fetchMetadata walletId db (kv :: fresh) acc r := by
  refine ⟨fun key => ?_, fun q hq => ?_, h.kept, fun kv' hmem hno => ?_⟩
  · rw [h.stored, hkeys, List.mem_append, List.mem_singleton, or_assoc]
    refine or_congr Iff.rfl ?_
    constructor
    · rintro (rfl | ⟨raw, hmem, hraw⟩)
      · exact ⟨kv.2, List.mem_cons_self, hok⟩
      · exact ⟨raw, List.mem_cons_of_mem _ hmem, hraw⟩
    · rintro ⟨raw, hmem, hraw⟩
      rcases List.mem_cons.mp hmem with rfl | hmem
      · exact .inl rfl
      · exact .inr ⟨raw, hmem, hraw⟩
  · rcases h.sound q hq with hq | ⟨key, hmem, hno⟩
    · exact .inl hq
    · exact .inr ⟨key, List.mem_cons_of_mem _ hmem, hno⟩
  · rcases List.mem_cons.mp hmem with rfl | hmem
    · exact absurd hok hno
    · exact h.counted kv' hmem hno

/-- A row that does not, before the others. -/
theorem WroteRows.quarantined {q : Quarantined} (hraw : q.raw = kv.2)
    (hno : ¬ Inserts tx u fetchMetadata walletId db kv.1 kv.2)
    (h : WroteRows tx u fetchMetadata walletId db fresh
      { acc with quarantined := acc.quarantined ++ [q] } r) :
    WroteRows tx u fetchMetadata walletId db (kv :: fresh) acc r := by
  refine ⟨fun key => ?_, fun q' hq => ?_, fun q' hq => h.kept q' (List.mem_append_left _ hq),
    fun kv' hmem hno' => ?_⟩
  · rw [h.stored]
    refine or_congr Iff.rfl ?_
    constructor
    · rintro ⟨raw, hmem, hins⟩
      exact ⟨raw, List.mem_cons_of_mem _ hmem, hins⟩
    · rintro ⟨raw, hmem, hins⟩
      rcases List.mem_cons.mp hmem with rfl | hmem
      · exact absurd hins hno
      · exact ⟨raw, hmem, hins⟩
  · rcases h.sound q' hq with hq | ⟨key, hmem, hno'⟩
    · rcases List.mem_append.mp hq with hq | hq
      · exact .inl hq
      · obtain rfl := List.mem_singleton.mp hq
        rw [hraw]
        exact .inr ⟨kv.1, List.mem_cons_self, hno⟩
    · exact .inr ⟨key, List.mem_cons_of_mem _ hmem, hno'⟩
  · rcases List.mem_cons.mp hmem with rfl | hmem
    · exact ⟨q, h.kept q (List.mem_append_right _ (List.mem_singleton_self _)), hraw⟩
    · exact h.counted kv' hmem hno'

end

theorem writeRows_exact {u : Upstream} {fetchMetadata : Bool}
    {walletId : Nat} {rows : List Json} {db : Db} (fresh : List (String × Json)) : ∀ acc :
      Ingested, (∀ kv ∈ fresh, firstRow tx rows kv.1 = some kv.2) →
      SameMarkets tx u fetchMetadata db acc.db →
      WroteRows tx u fetchMetadata walletId db fresh acc
        (fresh.foldl (writeRow tx (u.page tx rows) fetchMetadata walletId) acc) := by
  induction fresh with
  | nil =>
    intro acc _ _
    exact ⟨fun key => by simp, fun q hq => .inl hq, fun q hq => hq,
      fun kv h => (List.not_mem_nil h).elim⟩
  | cons kv fresh ih =>
    intro acc hfirst hmarkets
    have hkv := hfirst kv List.mem_cons_self
    have hrest : ∀ kv ∈ fresh, firstRow tx rows kv.1 = some kv.2 :=
      fun kv h => hfirst kv (List.mem_cons_of_mem _ h)
    rw [List.foldl_cons]
    unfold writeRow
    rw [page_insert hkv]
    cases hins : insertTrade tx (u.row tx kv.2) fetchMetadata walletId kv.1 kv.2 acc.db with
    | ok d =>
      obtain ⟨⟨t, htkey, htrades⟩, -⟩ := insertTrade_added hins
      have hkeys : tradeKeys d = tradeKeys acc.db ++ [kv.1] := by
        unfold tradeKeys
        rw [htrades, List.map_append, List.map_singleton, htkey]
      have hd : SameMarkets tx u fetchMetadata db d := fun cid =>
        (insertTrade_sameMarkets hins cid).trans (hmarkets cid)
      exact .inserted hkeys ((inserts_iff hmarkets).mp ⟨d, hins⟩) (ih _ hrest hd)
    | error e =>
      have hno : ¬ Inserts tx u fetchMetadata walletId db kv.1 kv.2 := by
        rw [← inserts_iff hmarkets]
        rintro ⟨d, hd⟩
        rw [hins] at hd
        cases hd
      exact .quarantined rfl hno (ih _ hrest hmarkets)

/-! ## Keying the page -/

def isObject : Json → Bool
  | .obj _ => true
  | _ => false

theorem get_ok_iff {raw : Json} {name : String} :
    (∃ j, raw.get name = .ok j) ↔ isObject raw = true := by
  cases raw with
  | obj fields => exact iff_of_true ⟨_, rfl⟩ rfl
  | null | bool | num | str | arr =>
    exact iff_of_false (by rintro ⟨j, h⟩; cases h) (fun h => by cases h)

/-- A value that is no object raises `AttributeError`. -/
theorem canonicalTradeId_not_object {raw : Json} (h : isObject raw = false) :
    canonicalTradeId tx raw = .error .attributeError := by
  cases raw with
  | obj fields => cases h
  | null | bool | num | str | arr => rfl

theorem num_error {j : Json} {e : Exc} (h : num j = .error e) : e = .arithmeticError := by
  unfold num at h
  split at h
  · next d _ =>
    cases hd : d.normalize with
    | ok d' =>
      rw [hd] at h
      cases h
    | error e' =>
      rw [hd] at h
      obtain rfl : e' = e := by simpa [Except.map] using h
      unfold Dec.normalize at hd
      split at hd
      · exact (Except.error.inj hd).symm
      · cases hd
      · cases hd
      · split at hd
        · cases hd
        · dsimp only at hd
          split at hd
          · exact (Except.error.inj hd).symm
          · split at hd <;> cases hd
  · exact (Except.error.inj h).symm

/-- An object has a key, or raises one of the exceptions that mean it has none. -/
theorem canonicalTradeId_object (tx : Text) {raw : Json} (h : isObject raw = true) :
    (∃ key, canonicalTradeId tx raw = .ok key) ∨
    ∃ e, canonicalTradeId tx raw = .error e ∧ Unidentified e = true := by
  cases raw with
  | null | bool | num | str | arr => cases h
  | obj fields =>
    let value : String → Json := fun name => (Json.field? fields name).getD .null
    have hvalues : identityFields.mapM (Json.obj fields).get = .ok (identityFields.map value) := rfl
    by_cases hnull : ((identityFields.map value).any Json.isNull) = true
    · right
      refine ⟨.valueError, ?_, rfl⟩
      unfold canonicalTradeId
      simp only [hvalues, bind, Except.bind]
      rw [if_pos hnull]
    · have hitem : ∀ name ∈ identityFields, ∃ j, (Json.obj fields).item name = .ok j := by
        intro name hname
        cases hfield : Json.field? fields name with
        | some j => exact ⟨j, by unfold Json.item; dsimp only; rw [hfield]⟩
        | none =>
          exfalso
          refine hnull (List.any_eq_true.mpr ⟨value name, List.mem_map_of_mem hname, ?_⟩)
          show ((Json.field? fields name).getD .null).isNull = true
          rw [hfield]
          rfl
      obtain ⟨j1, h1⟩ := hitem "transactionHash" (by decide)
      obtain ⟨j2, h2⟩ := hitem "proxyWallet" (by decide)
      obtain ⟨j3, h3⟩ := hitem "asset" (by decide)
      obtain ⟨j4, h4⟩ := hitem "size" (by decide)
      obtain ⟨j5, h5⟩ := hitem "price" (by decide)
      obtain ⟨j6, h6⟩ := hitem "timestamp" (by decide)
      unfold canonicalTradeId
      simp only [hvalues, bind, Except.bind]
      rw [if_neg hnull]
      simp only [h1, h2, h3, h4, h5, h6]
      cases hsize : num j4 with
      | error e =>
        right
        refine ⟨e, rfl, ?_⟩
        rw [num_error hsize]
        rfl
      | ok size =>
        cases hprice : num j5 with
        | error e =>
          right
          refine ⟨e, rfl, ?_⟩
          rw [num_error hprice]
          rfl
        | ok price => exact .inl ⟨_, rfl⟩

theorem keyRow_ok_iff {acc : List (String × Json) × List Quarantined} {raw : Json} :
    (∃ acc', keyRow tx acc raw = .ok acc') ↔ isObject raw = true := by
  cases hobj : isObject raw with
  | false =>
    refine iff_of_false ?_ (by decide)
    rintro ⟨acc', h⟩
    unfold keyRow at h
    rw [canonicalTradeId_not_object hobj] at h
    cases h
  | true =>
    refine iff_of_true ?_ rfl
    unfold keyRow
    rcases canonicalTradeId_object tx hobj with ⟨key, hkey⟩ | ⟨e, he, hid⟩
    · rw [hkey]
      exact ⟨_, rfl⟩
    · rw [he]
      dsimp only
      rw [if_pos hid]
      exact ⟨_, rfl⟩

theorem keyRows_ok_iff : ∀ {rows : List Json} {acc : List (String × Json) × List Quarantined},
    (∃ acc', rows.foldlM (keyRow tx) acc = .ok acc') ↔ ∀ raw ∈ rows, isObject raw = true := by
  intro rows
  induction rows with
  | nil => intro acc; exact iff_of_true ⟨acc, rfl⟩ (fun raw h => (List.not_mem_nil h).elim)
  | cons raw rows ih =>
    intro acc
    rw [List.foldlM_cons, List.forall_mem_cons]
    constructor
    · rintro ⟨acc', h⟩
      obtain ⟨mid, hmid, h⟩ := bind_ok h
      exact ⟨keyRow_ok_iff.mp ⟨mid, hmid⟩, ih.mp ⟨acc', h⟩⟩
    · rintro ⟨hraw, hrows⟩
      obtain ⟨mid, hmid⟩ := keyRow_ok_iff.mpr hraw
      rw [hmid]
      exact ih.mpr hrows

theorem firstRow_cons {rows : List Json} {raw : Json} {key : String} :
    firstRow tx (raw :: rows) key =
    if canonicalTradeId tx raw = .ok key then some raw else firstRow tx rows key := by
  unfold firstRow
  rw [List.find?_cons]
  cases hraw : canonicalTradeId tx raw with
  | error e => simp [Except.toOption]
  | ok k => by_cases hk : k = key <;> simp [Except.toOption, hk]

theorem firstRow_some {rows : List Json} {raw : Json} {key : String}
    (h : firstRow tx rows key = some raw) :
    raw ∈ rows ∧ canonicalTradeId tx raw = .ok key := by
  unfold firstRow at h
  refine ⟨List.mem_of_find?_eq_some h, ?_⟩
  have hk := List.find?_some h
  rw [decide_eq_true_eq] at hk
  cases hraw : canonicalTradeId tx raw with
  | error e =>
    rw [hraw] at hk
    cases hk
  | ok k =>
    rw [hraw] at hk
    rw [Option.some.inj hk]

/-- A key of the page has a first row. -/
theorem firstRow_of_mem {rows : List Json} {raw : Json} {key : String} (h : raw ∈ rows)
    (hkey : canonicalTradeId tx raw = .ok key) : ∃ first, firstRow tx rows key = some first := by
  rw [← Option.isSome_iff_exists]
  unfold firstRow
  rw [List.find?_isSome]
  exact ⟨raw, h, by rw [hkey]; exact decide_eq_true rfl⟩

/-- The first loop keeps the first row of each key, and quarantines the rows without one. -/
structure KeyedRows (tx : Text) (rows : List Json)
    (acc acc' : List (String × Json) × List Quarantined) : Prop where
  first : ∀ key raw, (key, raw) ∈ acc'.1 ↔
    (key, raw) ∈ acc.1 ∨ key ∉ acc.1.map Prod.fst ∧ firstRow tx rows key = some raw
  sound : ∀ q ∈ acc'.2, q ∈ acc.2 ∨ q.raw ∈ rows ∧ ∀ key, canonicalTradeId tx q.raw ≠ .ok key
  kept : ∀ q ∈ acc.2, q ∈ acc'.2
  counted : ∀ raw ∈ rows, (∀ key, canonicalTradeId tx raw ≠ .ok key) → ∃ q ∈ acc'.2, q.raw = raw

theorem mem_setDefault (k : String) (row : Json)
    (keyed : List (String × Json)) (kv : String × Json) :
    kv ∈ setDefault k row keyed ↔ kv ∈ keyed ∨ k ∉ keyed.map Prod.fst ∧ kv = (k, row) := by
  unfold setDefault
  have hiff : (keyed.any fun kv => kv.1 = k) = true ↔ k ∈ keyed.map Prod.fst := by
    simp [List.any_eq_true, List.mem_map]
  by_cases hin : k ∈ keyed.map Prod.fst
  · rw [if_pos (hiff.mpr hin)]
    simp [hin]
  · rw [if_neg fun hany => hin (hiff.mp hany), List.mem_append, List.mem_singleton]
    simp [hin]

section
variable {rows : List Json} {row : Json} {keyed : List (String × Json)}
  {quarantined : List Quarantined}
  {acc' : List (String × Json) × List Quarantined}

/-- A row with a key, before the others. -/
theorem KeyedRows.of_key {k : String} (hk : canonicalTradeId tx row = .ok k)
    (h : KeyedRows tx rows (setDefault k row keyed, quarantined) acc') :
    KeyedRows tx (row :: rows) (keyed, quarantined) acc' := by
  refine ⟨fun key raw => ?_, fun q hq => ?_, h.kept, fun raw hraw hno => ?_⟩
  · rw [h.first, setDefault_keys, firstRow_cons, hk, mem_setDefault, Prod.mk.injEq]
    by_cases hkk : k = key
    · subst hkk
      by_cases hin : k ∈ keyed.map Prod.fst
      · simp [hin]
      · simp [hin, eq_comm]
    · have hne : ¬ (Except.ok k : Except Exc String) = .ok key := fun he => hkk (Except.ok.inj he)
      have hne' : ¬ key = k := fun he => hkk he.symm
      rw [if_neg hne]
      by_cases hin : k ∈ keyed.map Prod.fst
      · simp [hin]
      · simp [hin, hne']
  · rcases h.sound q hq with hq | ⟨hmem, hno⟩
    · exact .inl hq
    · exact .inr ⟨List.mem_cons_of_mem _ hmem, hno⟩
  · rcases List.mem_cons.mp hraw with rfl | hraw
    · exact absurd hk (hno k)
    · exact h.counted raw hraw hno

/-- A row without one, before the others. -/
theorem KeyedRows.of_no_key {q : Quarantined} (hraw : q.raw = row)
    (hnone : ∀ key, canonicalTradeId tx row ≠ .ok key)
    (h : KeyedRows tx rows (keyed, quarantined ++ [q]) acc') :
    KeyedRows tx (row :: rows) (keyed, quarantined) acc' := by
  refine ⟨fun key raw => ?_, fun q' hq => ?_, fun q' hq => h.kept q' (List.mem_append_left _ hq),
    fun raw hmem hno => ?_⟩
  · rw [h.first, firstRow_cons, if_neg (hnone key)]
  · rcases h.sound q' hq with hq | ⟨hmem, hno⟩
    · rcases List.mem_append.mp hq with hq | hq
      · exact .inl hq
      · obtain rfl := List.mem_singleton.mp hq
        rw [hraw]
        exact .inr ⟨List.mem_cons_self, hnone⟩
    · exact .inr ⟨List.mem_cons_of_mem _ hmem, hno⟩
  · rcases List.mem_cons.mp hmem with rfl | hmem
    · exact ⟨q, h.kept q (List.mem_append_right _ (List.mem_singleton_self _)), hraw⟩
    · exact h.counted raw hmem hno

end

theorem keyRows_first : ∀ {rows : List Json} {acc acc' : List (String × Json) × List Quarantined},
    rows.foldlM (keyRow tx) acc = .ok acc' → KeyedRows tx rows acc acc' := by
  intro rows
  induction rows with
  | nil =>
    intro acc acc' h
    obtain rfl := Except.ok.inj h
    refine ⟨fun key raw => ?_, fun q hq => .inl hq, fun q hq => hq,
      fun raw h => (List.not_mem_nil h).elim⟩
    constructor
    · exact .inl
    · rintro (h | ⟨-, h⟩)
      · exact h
      · cases h
  | cons row rows ih =>
    intro acc acc' h
    rw [List.foldlM_cons] at h
    obtain ⟨mid, hmid, h⟩ := bind_ok h
    unfold keyRow at hmid
    split at hmid
    · next k hk =>
      obtain rfl := Except.ok.inj hmid
      exact .of_key hk (ih h)
    · next e he =>
      split at hmid
      · obtain rfl := Except.ok.inj hmid
        have hnone : ∀ key, canonicalTradeId tx row ≠ .ok key := fun key hkey => by
          rw [he] at hkey
          cases hkey
        exact .of_no_key rfl hnone (ih h)
      · cases hmid

theorem keys_ok_iff : ∀ {rows : List Json},
    (∃ ks, keys tx rows = .ok ks) ↔ ∀ raw ∈ rows, isObject raw = true := by
  intro rows
  induction rows with
  | nil => exact iff_of_true ⟨[], rfl⟩ (fun raw h => (List.not_mem_nil h).elim)
  | cons raw rows ih =>
    rw [List.forall_mem_cons]
    unfold keys
    rw [← ih]
    cases hobj : isObject raw with
    | false =>
      rw [canonicalTradeId_not_object hobj]
      refine iff_of_false ?_ (fun h => by cases h.1)
      rintro ⟨ks, h⟩
      cases h
    | true =>
      rcases canonicalTradeId_object tx hobj with ⟨key, hkey⟩ | ⟨e, he, hid⟩
      · rw [hkey]
        constructor
        · rintro ⟨ks, h⟩
          obtain ⟨ks', hks, -⟩ := map_ok h
          exact ⟨rfl, ks', hks⟩
        · rintro ⟨-, ks, h⟩
          exact ⟨key :: ks, by dsimp only; rw [h]; rfl⟩
      · rw [he]
        dsimp only
        rw [if_pos hid]
        exact ⟨fun h => ⟨rfl, h⟩, fun h => h.2⟩

theorem keys_eq : ∀ {rows : List Json} {ks : List String}, keys tx rows = .ok ks →
    ks = pageKeys tx rows := by
  intro rows
  induction rows with
  | nil =>
    intro ks h
    obtain rfl := Except.ok.inj h
    rfl
  | cons raw rows ih =>
    intro ks h
    unfold keys at h
    split at h
    · next key hkey =>
      obtain ⟨ks', hks, rfl⟩ := map_ok h
      rw [ih hks]
      unfold pageKeys
      rw [List.filterMap_cons, hkey]
      rfl
    · next e he =>
      split at h
      · rw [ih h]
        unfold pageKeys
        rw [List.filterMap_cons, he]
        rfl
      · cases h

end

/-! ## `ingest_trade_rows` -/

section
variable (tx : Text) (u : Upstream) (fetchMetadata : Bool) (walletId : Nat) (db : Db)

/-- The row has a key the driver takes, and would be inserted. -/
structure WellFormedRow (key : String) (raw : Json) : Prop where
  identified : canonicalTradeId tx raw = .ok key
  binds : u.binds key = true
  inserts : Inserts tx u fetchMetadata walletId db key raw

/-- Every well-formed row's key is stored and nothing else is; the other rows, and no
well-formed one, are quarantined, unless their key is stored or is an earlier row's. -/
structure Contained (rows : List Json) (r : Ingested) : Prop where
  stored : ∀ raw ∈ rows, ∀ key, WellFormedRow tx u fetchMetadata walletId db key raw →
    r.db.hasTrade key = true
  only : ∀ key, r.db.hasTrade key = true → db.hasTrade key = true ∨
    ∃ raw ∈ rows, WellFormedRow tx u fetchMetadata walletId db key raw
  others : ∀ q ∈ r.quarantined, q.raw ∈ rows ∧
    ∀ key, ¬ WellFormedRow tx u fetchMetadata walletId db key q.raw
  counted : ∀ raw ∈ rows, (∀ key, ¬ WellFormedRow tx u fetchMetadata walletId db key raw) →
    (∃ q ∈ r.quarantined, q.raw = raw) ∨ ∃ key, canonicalTradeId tx raw = .ok key ∧
      (db.hasTrade key = true ∨ firstRow tx rows key ≠ some raw)

/-- Every row is an object, the driver takes every key, and where a well-formed row's key
is not stored yet the first row of the page with that key is well-formed too. -/
structure Clean (rows : List Json) : Prop where
  objects : ∀ raw ∈ rows, isObject raw = true
  binds : ∀ raw ∈ rows, ∀ key, canonicalTradeId tx raw = .ok key → u.binds key = true
  leads : ∀ raw ∈ rows, ∀ key, WellFormedRow tx u fetchMetadata walletId db key raw →
    db.hasTrade key = true ∨
    ∃ first, firstRow tx rows key = some first ∧
    WellFormedRow tx u fetchMetadata walletId db key first

variable {tx u fetchMetadata walletId db}

theorem keyed_first {rows : List Json} {keyed : List (String × Json)}
    {quarantined : List Quarantined}
    (h : rows.foldlM (keyRow tx) ([], []) = .ok (keyed, quarantined)) (key : String) (raw : Json) :
    (key, raw) ∈ keyed ↔ firstRow tx rows key = some raw := by
  rw [(keyRows_first h).first]
  simp

theorem ingestPage_ok_iff {rows : List Json} :
    (∃ r, ingestPage tx u fetchMetadata walletId rows db = .ok r) ↔
      (∀ raw ∈ rows, isObject raw = true) ∧
        ∀ raw ∈ rows, ∀ key, canonicalTradeId tx raw = .ok key → u.binds key = true := by
  have hkeyed : (∃ acc, rows.foldlM (keyRow tx) ([], []) = .ok acc) ↔
    ∀ raw ∈ rows, isObject raw = true := keyRows_ok_iff
  rw [← hkeyed]
  have hbinds : ∀ {keyed quarantined}, rows.foldlM (keyRow tx) ([], []) = .ok (keyed, quarantined) →
      ((keyed.all fun kv => u.binds kv.1) = true ↔
        ∀ raw ∈ rows, ∀ key, canonicalTradeId tx raw = .ok key → u.binds key = true) := by
    intro keyed quarantined hkeyed
    rw [List.all_eq_true]
    constructor
    · intro h raw hraw key hkey
      obtain ⟨first, hfirst⟩ := firstRow_of_mem hraw hkey
      exact h _ ((keyed_first hkeyed key first).mpr hfirst)
    · intro h kv hkv
      obtain ⟨hmem, hkey⟩ := firstRow_some ((keyed_first hkeyed kv.1 kv.2).mp hkv)
      exact h _ hmem _ hkey
  unfold ingestPage
  constructor
  · rintro ⟨r, h⟩
    obtain ⟨⟨keyed, quarantined⟩, hkeyed, h⟩ := bind_ok h
    refine ⟨⟨_, hkeyed⟩, (hbinds hkeyed).mp ?_⟩
    by_contra hno
    dsimp only at h
    rw [if_neg hno] at h
    cases h
  · rintro ⟨⟨⟨keyed, quarantined⟩, hkeyed⟩, h⟩
    simp only [hkeyed, bind, Except.bind]
    rw [if_pos ((hbinds hkeyed).mpr h)]
    unfold ingestTradeRows
    rw [hkeyed]
    exact ⟨_, rfl⟩

/-- What a call stores, and what it quarantines, row by row. -/
theorem ingestPage_spec {rows : List Json} {r : Ingested}
    (h : ingestPage tx u fetchMetadata walletId rows db = .ok r) :
    (∀ key, r.db.hasTrade key = true ↔ db.hasTrade key = true ∨
      ∃ first, firstRow tx rows key = some first ∧
      WellFormedRow tx u fetchMetadata walletId db key first) ∧
    (∀ q ∈ r.quarantined, q.raw ∈ rows ∧ ∀ key,
      ¬ WellFormedRow tx u fetchMetadata walletId db key q.raw) ∧
    ∀ raw ∈ rows, (∀ key, ¬ WellFormedRow tx u fetchMetadata walletId db key raw) →
      (∃ q ∈ r.quarantined, q.raw = raw) ∨ ∃ key, canonicalTradeId tx raw = .ok key ∧
        (db.hasTrade key = true ∨ firstRow tx rows key ≠ some raw) := by
  have hclean := ingestPage_ok_iff.mp ⟨r, h⟩
  obtain ⟨⟨keyed, quarantined⟩, hkeyed, h⟩ := bind_ok h
  dsimp only at h
  split at h
  · obtain ⟨⟨keyed', quarantined'⟩, hkeyed', h⟩ := bind_ok h
    obtain ⟨rfl, rfl⟩ := Prod.mk.inj (Except.ok.inj (hkeyed.symm.trans hkeyed'))
    obtain rfl := Except.ok.inj h
    have hfirst : ∀ kv ∈ keyed.filter fun kv => !db.hasTrade kv.1,
        firstRow tx rows kv.1 = some kv.2 :=
      fun kv hkv => (keyed_first hkeyed kv.1 kv.2).mp (List.mem_filter.mp hkv).1
    obtain ⟨stored, sound, kept, counted⟩ := @writeRows_exact tx u fetchMetadata walletId rows
      db (keyed.filter fun kv => !db.hasTrade kv.1) ⟨db, 0, quarantined⟩ hfirst (fun _ => Iff.rfl)
    have hfresh : ∀ {key raw}, firstRow tx rows key = some raw → key ∉ tradeKeys db →
        (key, raw) ∈ keyed.filter fun kv => !db.hasTrade kv.1 := by
      intro key raw hraw hnew
      refine List.mem_filter.mpr ⟨(keyed_first hkeyed key raw).mpr hraw, ?_⟩
      dsimp only
      rw [hasTrade_false hnew]
      rfl
    refine ⟨fun key => ?_, fun q hq => ?_, fun raw hraw hno => ?_⟩
    · rw [hasTrade_iff, hasTrade_iff, stored]
      constructor
      · rintro (hold | ⟨raw, hmem, hins⟩)
        · exact .inl hold
        · have hraw := hfirst _ hmem
          obtain ⟨hin, hkey⟩ := firstRow_some hraw
          exact .inr ⟨raw, hraw, hkey, hclean.2 raw hin key hkey, hins⟩
      · rintro (hold | ⟨first, hraw, hwell⟩)
        · exact .inl hold
        · by_cases hold : key ∈ tradeKeys db
          · exact .inl hold
          · exact .inr ⟨first, hfresh hraw hold, hwell.inserts⟩
    · rcases sound q hq with hq | ⟨key, hmem, hno⟩
      · rcases (keyRows_first hkeyed).sound q hq with hq | ⟨hmem, hno⟩
        · exact (List.not_mem_nil hq).elim
        · exact ⟨hmem, fun key hwell => hno key hwell.identified⟩
      · obtain ⟨hin, hkey⟩ := firstRow_some (hfirst _ hmem)
        refine ⟨hin, fun key' hwell => hno ?_⟩
        obtain rfl : key' = key := Except.ok.inj (hwell.identified.symm.trans hkey)
        exact hwell.inserts
    · cases hkey : canonicalTradeId tx raw with
      | error e =>
        obtain ⟨q, hq, hqraw⟩ := (keyRows_first hkeyed).counted raw hraw fun key he => by
          rw [hkey] at he
          cases he
        exact .inl ⟨q, kept q hq, hqraw⟩
      | ok key =>
        by_cases hold : key ∈ tradeKeys db
        · exact .inr ⟨key, rfl, .inl (hasTrade_iff.mpr hold)⟩
        · by_cases hlead : firstRow tx rows key = some raw
          · refine .inl (counted (key, raw) (hfresh hlead hold) fun hins => ?_)
            exact hno key ⟨hkey, hclean.2 raw hraw key hkey, hins⟩
          · exact .inr ⟨key, rfl, .inr hlead⟩
  · cases h

theorem contained_of_clean {rows : List Json} {r : Ingested}
    (hc : Clean tx u fetchMetadata walletId db rows)
    (h : ingestPage tx u fetchMetadata walletId rows db = .ok r) :
    Contained tx u fetchMetadata walletId db rows r := by
  obtain ⟨hstored, hothers, hcounted⟩ := ingestPage_spec h
  refine ⟨fun raw hraw key hwell => (hstored key).mpr (hc.leads raw hraw key hwell),
    fun key hkey => ?_, hothers, hcounted⟩
  rcases (hstored key).mp hkey with hold | ⟨first, hfirst, hwell⟩
  · exact .inl hold
  · exact .inr ⟨first, (firstRow_some hfirst).1, hwell⟩

theorem clean_of_contained {rows : List Json} {r : Ingested}
    (h : ingestPage tx u fetchMetadata walletId rows db = .ok r)
    (hc : Contained tx u fetchMetadata walletId db rows r) :
    Clean tx u fetchMetadata walletId db rows := by
  obtain ⟨hobjects, hbinds⟩ := ingestPage_ok_iff.mp ⟨r, h⟩
  refine ⟨hobjects, hbinds, fun raw hraw key hwell => ?_⟩
  exact ((ingestPage_spec h).1 key).mp (hc.stored raw hraw key hwell)

end

end Polycopy
