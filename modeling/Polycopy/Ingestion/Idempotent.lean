import Mathlib.Data.List.Dedup
import Polycopy.Lib.Run
import Polycopy.Ingestion.Service

/-!
# Pages in any order, any number of times

Deduplication in `ingest_trade_rows` happens within the page (`keyed`), against
the table (`new_keys`) and, as a backstop, in the unique constraint.  For rows
whose insertion fails for no other reason the stored keys are those of the rows,
once each, whatever the order of the pages and however often one is replayed.
-/

namespace Polycopy

open Py Runs

/-- One call, with what Gamma and the database answer during it. -/
structure PageCall where
  walletId : Nat
  rows : List Json
  fetchMetadata : Bool
  env : PageEnv

def PageCall.ingest (tx : Text) (c : PageCall) (db : Db) : Except Exc Ingested :=
  ingestTradeRows tx c.env c.fetchMetadata c.walletId c.rows db

/-- Every row has an identity, and only a stored key keeps it from being inserted. -/
structure PageCall.WellFormed (tx : Text) (c : PageCall) : Prop where
  identified : ∀ raw ∈ c.rows, ∃ key, canonicalTradeId tx raw = .ok key
  inserts : ∀ raw ∈ c.rows, ∀ key, canonicalTradeId tx raw = .ok key →
    ∀ db : Db, db.hasTrade key = false →
    ∃ db', insertTrade tx c.env c.fetchMetadata c.walletId key raw db = .ok db'

/-- A call that commits, one that a crash cuts off before its commit, and a commit of another
process that leaves the trades alone. -/
inductive PageEvent
  | stored (c : PageCall)
  | lost (c : PageCall)
  | elsewhere

inductive PageStep (tx : Text) (db : Db) : PageEvent → Db → Prop
  | stored (c : PageCall) (r : Ingested) (h : c.ingest tx db = .ok r) :
      PageStep tx db (.stored c) r.db
  | lost (c : PageCall) : PageStep tx db (.lost c) db
  | elsewhere (db' : Db) (h : db'.trades = db.trades) : PageStep tx db .elsewhere db'

def PageEvent.call : PageEvent → Option PageCall
  | .stored c => some c
  | _ => none

/-- The committed calls of a run. -/
def callsOf (tr : List (PageEvent × Db)) : List PageCall := tr.filterMap fun x => x.1.call

def tradeKeys (db : Db) : List String := db.trades.map Trade.polymarketTradeId

/-- The keys of the rows that have one. -/
def pageKeys (tx : Text) (rows : List Json) : List String :=
  rows.filterMap fun raw => (canonicalTradeId tx raw).toOption

/-- How many of a page's keys are in the table already. -/
def alreadyStored (tx : Text) (rows : List Json) (db : Db) : Nat :=
  ((pageKeys tx rows).dedup.filter db.hasTrade).length

/-- How many rows repeat the key of another row of the page. -/
def pageRepeats (tx : Text) (rows : List Json) : Nat :=
  (pageKeys tx rows).length - (pageKeys tx rows).dedup.length

theorem hasTrade_iff {db : Db} {key : String} : db.hasTrade key = true ↔ key ∈ tradeKeys db := by
  unfold Db.hasTrade tradeKeys
  simp [List.any_eq_true, List.mem_map]

theorem hasTrade_false {db : Db} {key : String} (h : key ∉ tradeKeys db) :
    db.hasTrade key = false := by
  rw [Bool.eq_false_iff]
  exact fun hhas => h (hasTrade_iff.mp hhas)

/-! ## Keying a page -/

theorem setDefault_keys (key : String) (raw : Json) (keyed : List (String × Json)) :
    (setDefault key raw keyed).map Prod.fst =
      if key ∈ keyed.map Prod.fst then keyed.map Prod.fst else keyed.map Prod.fst ++ [key] := by
  unfold setDefault
  have hiff : (keyed.any fun kv => kv.1 = key) = true ↔ key ∈ keyed.map Prod.fst := by
    simp [List.any_eq_true, List.mem_map]
  by_cases h : key ∈ keyed.map Prod.fst
  · rw [if_pos (hiff.mpr h), if_pos h]
  · rw [if_neg fun hany => h (hiff.mp hany), if_neg h, List.map_append]
    rfl

/-- What the first loop leaves: each key once, and one quarantined row for
each row without a key. -/
structure KeyedPage (tx : Text) (rows : List Json)
    (acc acc' : List (String × Json) × List Quarantined) : Prop where
  unique : (acc.1.map Prod.fst).Nodup → (acc'.1.map Prod.fst).Nodup
  keys : ∀ key, key ∈ acc'.1.map Prod.fst ↔ key ∈ acc.1.map Prod.fst ∨ key ∈ pageKeys tx rows
  source : ∀ kv ∈ acc'.1, kv ∈ acc.1 ∨ (kv.2 ∈ rows ∧ canonicalTradeId tx kv.2 = .ok kv.1)
  quarantined : acc'.2.length + (pageKeys tx rows).length = acc.2.length + rows.length

theorem keyRow_page {tx : Text} {acc acc' : List (String × Json) × List Quarantined} {raw : Json}
    (h : keyRow tx acc raw = .ok acc') : KeyedPage tx [raw] acc acc' := by
  unfold keyRow at h
  split at h
  · next key hkey =>
    obtain rfl := Except.ok.inj h
    have hpage : pageKeys tx [raw] = [key] := by simp [pageKeys, hkey, Except.toOption]
    refine ⟨fun hn => ?_, fun k => ?_, fun kv hkv => ?_, ?_⟩
    · rw [setDefault_keys]
      split
      · exact hn
      · next hnew =>
        simpa using Keyed.nodup_snoc id (by rwa [List.map_id]) (by rwa [List.map_id])
    · rw [setDefault_keys, hpage]
      split
      · next hin =>
        refine ⟨Or.inl, fun hk => ?_⟩
        rcases hk with hk | hk
        · exact hk
        · rw [List.mem_singleton.mp hk]
          exact hin
      · exact List.mem_append
    · unfold setDefault at hkv
      split at hkv
      · exact .inl hkv
      · rcases List.mem_append.mp hkv with hkv | hkv
        · exact .inl hkv
        · obtain rfl := List.mem_singleton.mp hkv
          exact .inr ⟨List.mem_singleton_self _, hkey⟩
    · rw [hpage]
      rfl
  · next e hkey =>
    split at h
    · obtain rfl := Except.ok.inj h
      have hpage : pageKeys tx [raw] = [] := by simp [pageKeys, hkey, Except.toOption]
      refine ⟨id, fun k => ?_, fun kv hkv => .inl hkv, ?_⟩
      · rw [hpage]
        simp
      · rw [hpage, List.length_append]
        rfl
    · cases h

theorem keyRows_page {tx : Text} : ∀ {rows : List Json}
    {acc acc' : List (String × Json) × List Quarantined},
    rows.foldlM (keyRow tx) acc = .ok acc' → KeyedPage tx rows acc acc' := by
  intro rows
  induction rows with
  | nil =>
    intro acc acc' h
    obtain rfl := Except.ok.inj h
    exact ⟨id, fun k => by simp [pageKeys], fun kv hkv => .inl hkv, rfl⟩
  | cons raw rows ih =>
    intro acc acc' h
    rw [List.foldlM_cons] at h
    obtain ⟨mid, hmid, h⟩ := bind_ok h
    have hone := keyRow_page hmid
    have hrest := ih h
    have hkeys : pageKeys tx (raw :: rows) = pageKeys tx [raw] ++ pageKeys tx rows :=
      List.filterMap_append (l := [raw])
    refine ⟨fun hn => hrest.unique (hone.unique hn), fun k => ?_, fun kv hkv => ?_, ?_⟩
    · rw [hrest.keys, hone.keys, hkeys, List.mem_append, or_assoc]
    · rcases hrest.source kv hkv with hkv | ⟨hmem, hkey⟩
      · rcases hone.source kv hkv with hkv | ⟨hmem, hkey⟩
        · exact .inl hkv
        · exact .inr ⟨List.mem_cons.mpr (.inl (List.mem_singleton.mp hmem)), hkey⟩
      · exact .inr ⟨List.mem_cons_of_mem _ hmem, hkey⟩
    · have h1 := hone.quarantined
      have h2 := hrest.quarantined
      rw [hkeys, List.length_append, List.length_cons]
      simp only [List.length_singleton] at h1
      omega

/-! ## Writing the new keys -/

theorem writeRow_count (tx : Text) (env : PageEnv) (fetchMetadata : Bool) (walletId : Nat)
    (fresh : List (String × Json)) : ∀ acc : Ingested,
      (fresh.foldl (writeRow tx env fetchMetadata walletId) acc).inserted +
        (fresh.foldl (writeRow tx env fetchMetadata walletId) acc).quarantined.length =
      acc.inserted + acc.quarantined.length + fresh.length := by
  induction fresh with
  | nil => intro acc; rfl
  | cons kv fresh ih =>
    intro acc
    have hone : (writeRow tx env fetchMetadata walletId acc kv).inserted +
        (writeRow tx env fetchMetadata walletId acc kv).quarantined.length =
        acc.inserted + acc.quarantined.length + 1 := by
      unfold writeRow
      split
      · show acc.inserted + 1 + acc.quarantined.length = _
        omega
      · rw [List.length_append]
        rfl
    have hrest := ih (writeRow tx env fetchMetadata walletId acc kv)
    rw [List.foldl_cons, List.length_cons]
    omega

/-- New keys whose rows insert are stored, in their order, and nothing is quarantined. -/
theorem writeRows_stored {tx : Text} {c : PageCall} (hc : c.WellFormed tx)
    (fresh : List (String × Json)) :
    ∀ acc : Ingested, (fresh.map Prod.fst).Nodup →
      (∀ kv ∈ fresh, kv.2 ∈ c.rows ∧ canonicalTradeId tx kv.2 = .ok kv.1) →
      (∀ kv ∈ fresh, acc.db.hasTrade kv.1 = false) →
      tradeKeys (fresh.foldl (writeRow tx c.env c.fetchMetadata c.walletId) acc).db =
        tradeKeys acc.db ++ fresh.map Prod.fst ∧
      (fresh.foldl (writeRow tx c.env c.fetchMetadata c.walletId) acc).quarantined =
        acc.quarantined := by
  induction fresh with
  | nil =>
    intro acc _ _ _
    exact ⟨(List.append_nil _).symm, rfl⟩
  | cons kv fresh ih =>
    intro acc hn hrows hnew
    rw [List.map_cons, List.nodup_cons] at hn
    obtain ⟨hmem, hkey⟩ := hrows kv List.mem_cons_self
    obtain ⟨db', hins⟩ := hc.inserts kv.2 hmem kv.1 hkey acc.db (hnew kv List.mem_cons_self)
    have hstep : writeRow tx c.env c.fetchMetadata c.walletId acc kv =
        { acc with db := db', inserted := acc.inserted + 1 } := by
      unfold writeRow
      rw [hins]
    obtain ⟨markets, t, htkey, -, rfl⟩ := insertTrade_ok hins
    have hkeys : tradeKeys { acc.db with markets := markets, trades := acc.db.trades ++ [t] } =
        tradeKeys acc.db ++ [kv.1] := by
      unfold tradeKeys
      rw [List.map_append, List.map_singleton, htkey]
    rw [List.foldl_cons, hstep]
    have hlater : ∀ kv' ∈ fresh,
        ({ acc.db with markets := markets, trades := acc.db.trades ++ [t] } :
          Db).hasTrade kv'.1 = false := by
      -- a later key of the page is neither stored before nor the one just written
      intro kv' h
      rw [Bool.eq_false_iff]
      intro hhas
      rw [hasTrade_iff, hkeys, List.mem_append, ← hasTrade_iff,
        hnew kv' (List.mem_cons_of_mem _ h)] at hhas
      rcases hhas with hhas | hhas
      · cases hhas
      · exact hn.1 (List.mem_singleton.mp hhas ▸ List.mem_map_of_mem h)
    obtain ⟨hstored, hquarantined⟩ := ih
      ⟨{ acc.db with markets := markets, trades := acc.db.trades ++ [t] },
        acc.inserted + 1, acc.quarantined⟩ hn.2
      (fun kv' h => hrows kv' (List.mem_cons_of_mem _ h)) hlater
    refine ⟨?_, hquarantined⟩
    rw [hstored, hkeys, List.append_assoc, List.singleton_append, List.map_cons]

/-! ## A call -/

theorem keyRows_total {tx : Text} :
    ∀ {rows : List Json} (acc : List (String × Json) × List Quarantined),
    (∀ raw ∈ rows, ∃ key, canonicalTradeId tx raw = .ok key) →
      ∃ acc', rows.foldlM (keyRow tx) acc = .ok acc' ∧ acc'.2 = acc.2 := by
  intro rows
  induction rows with
  | nil => intro acc _; exact ⟨acc, rfl, rfl⟩
  | cons raw rows ih =>
    intro acc h
    obtain ⟨key, hkey⟩ := h raw List.mem_cons_self
    have hrow : keyRow tx acc raw = .ok (setDefault key raw acc.1, acc.2) := by
      unfold keyRow
      rw [hkey]
    obtain ⟨acc', hacc, hq⟩ := ih (setDefault key raw acc.1, acc.2) fun r hr =>
      h r (List.mem_cons_of_mem _ hr)
    refine ⟨acc', ?_, hq⟩
    rw [List.foldlM_cons, hrow]
    exact hacc

/-- The distinct keys of a page, as the loop has them and as a set. -/
theorem keyed_perm {tx : Text} {rows : List Json} {keyed : List (String × Json)}
    {quarantined : List Quarantined} (h : KeyedPage tx rows ([], []) (keyed, quarantined)) :
    (keyed.map Prod.fst).Perm (pageKeys tx rows).dedup := by
  refine (List.perm_ext_iff_of_nodup (h.unique List.nodup_nil)
    (List.nodup_dedup _)).mpr fun key => ?_
  rw [h.keys, List.mem_dedup]
  simp

/-- Every row of a page is inserted, quarantined, stored already or a repetition within the page. -/
theorem ingest_counts {tx : Text} {c : PageCall} {db : Db} {r : Ingested}
    (h : c.ingest tx db = .ok r) :
    r.inserted + r.quarantined.length + alreadyStored tx c.rows db +
      pageRepeats tx c.rows = c.rows.length := by
  obtain ⟨⟨keyed, quarantined⟩, hkeyed, h⟩ := bind_ok h
  obtain rfl := Except.ok.inj h
  have hpage := keyRows_page hkeyed
  have hperm := keyed_perm hpage
  have hcount := writeRow_count tx c.env c.fetchMetadata c.walletId
    (keyed.filter fun kv => !db.hasTrade kv.1)
    ⟨db, 0, quarantined⟩
  have hsplit : (keyed.filter fun kv => !db.hasTrade kv.1).length +
      alreadyStored tx c.rows db = keyed.length := by
    have hfilter : alreadyStored tx c.rows db =
        (keyed.filter fun kv => db.hasTrade kv.1).length := by
      unfold alreadyStored
      rw [← (hperm.filter db.hasTrade).length_eq, List.filter_map, List.length_map]
      rfl
    rw [hfilter, Nat.add_comm, List.length_eq_length_filter_add
      (l := keyed) fun kv => db.hasTrade kv.1]
  have hq := hpage.quarantined
  have hle : (pageKeys tx c.rows).dedup.length ≤ (pageKeys tx c.rows).length :=
    (List.dedup_sublist _).length_le
  have hlen := hperm.length_eq
  unfold pageRepeats
  rw [List.length_map] at hlen
  simp only [List.length_nil] at hq
  dsimp only at *
  omega

theorem mem_freshKeys {db : Db} {keyed : List (String × Json)} {key : String} :
    key ∈ (keyed.filter fun kv => !db.hasTrade kv.1).map Prod.fst ↔
      key ∈ keyed.map Prod.fst ∧ db.hasTrade key = false := by
  simp only [List.mem_map, List.mem_filter]
  constructor
  · rintro ⟨kv, ⟨hmem, hnew⟩, rfl⟩
    exact ⟨⟨kv, hmem, rfl⟩, by simpa using hnew⟩
  · rintro ⟨⟨kv, hmem, rfl⟩, hnew⟩
    exact ⟨kv, ⟨hmem, by simpa using hnew⟩, rfl⟩

/-- A call on well-formed rows commits the keys that were missing. -/
theorem ingest_wellFormed {tx : Text} {c : PageCall} (hc : c.WellFormed tx) (db : Db) :
    ∃ r, c.ingest tx db = .ok r ∧ r.quarantined = [] ∧
      (∀ key, key ∈ tradeKeys r.db ↔ key ∈ tradeKeys db ∨ key ∈ pageKeys tx c.rows) ∧
      ((tradeKeys db).Nodup → (tradeKeys r.db).Nodup) := by
  obtain ⟨⟨keyed, quarantined⟩, hkeyed, hquarantined⟩ := keyRows_total ([], []) hc.identified
  obtain rfl : quarantined = [] := hquarantined
  have hpage := keyRows_page hkeyed
  have hunique := hpage.unique List.nodup_nil
  have hfresh : ((keyed.filter fun kv => !db.hasTrade kv.1).map Prod.fst).Nodup :=
    hunique.sublist (List.filter_sublist.map Prod.fst)
  obtain ⟨hkeys, hq⟩ :=
    writeRows_stored hc (keyed.filter fun kv => !db.hasTrade kv.1) ⟨db, 0, []⟩ hfresh
    (fun kv hkv => by simpa using hpage.source kv (List.mem_filter.mp hkv).1)
    (fun kv hkv => by simpa using (List.mem_filter.mp hkv).2)
  refine ⟨_, ?_, hq, fun key => ?_, fun hn => ?_⟩
  · unfold PageCall.ingest ingestTradeRows
    rw [hkeyed]
    rfl
  · have hin : key ∈ keyed.map Prod.fst ↔ key ∈ pageKeys tx c.rows := by simpa using hpage.keys key
    rw [hkeys, List.mem_append, mem_freshKeys, hin]
    by_cases hstored : key ∈ tradeKeys db
    · simp [hstored]
    · simp [hstored, hasTrade_false hstored]
  · rw [hkeys, List.nodup_append]
    refine ⟨hn, hfresh, fun a ha b hb he => ?_⟩
    subst he
    have hnew := (mem_freshKeys.mp hb).2
    rw [hasTrade_iff.mpr ha] at hnew
    cases hnew

/-- A call whose keys are all stored changes nothing. -/
theorem ingest_replayed {tx : Text} {c : PageCall}
    (hrows : ∀ raw ∈ c.rows, ∃ key, canonicalTradeId tx raw = .ok key) {db : Db}
    (hstored : ∀ key ∈ pageKeys tx c.rows, db.hasTrade key = true) :
    c.ingest tx db = .ok ⟨db, 0, []⟩ := by
  obtain ⟨⟨keyed, quarantined⟩, hkeyed, hquarantined⟩ := keyRows_total ([], []) hrows
  obtain rfl : quarantined = [] := hquarantined
  have hpage := keyRows_page hkeyed
  have hnone : (keyed.filter fun kv => !db.hasTrade kv.1) = [] := by
    rw [List.filter_eq_nil_iff]
    intro kv hkv
    have hkey := (hpage.keys kv.1).mp (List.mem_map_of_mem hkv)
    rw [hstored kv.1 (by simpa using hkey)]
    decide
  unfold PageCall.ingest ingestTradeRows
  rw [hkeyed]
  show Except.ok ((keyed.filter fun kv => !db.hasTrade kv.1).foldl _ _) = _
  rw [hnone]
  rfl

/-! ## A run of calls -/

theorem callsOf_snoc (tr : List (PageEvent × Db)) (e : PageEvent) (db : Db) :
    callsOf (tr ++ [(e, db)]) = callsOf tr ++ e.call.toList := by
  unfold callsOf
  rw [List.filterMap_append]
  cases e <;> rfl

theorem pageRun_keys {tx : Text} {db₀ db : Db} {tr : List (PageEvent × Db)}
    (h : Run (PageStep tx) db₀ tr db)
    (hn : (tradeKeys db₀).Nodup) : (∀ c ∈ callsOf tr, c.WellFormed tx) →
      (tradeKeys db).Nodup ∧
      ∀ key, key ∈ tradeKeys db ↔ key ∈ tradeKeys db₀ ∨
      ∃ c ∈ callsOf tr, key ∈ pageKeys tx c.rows := by
  induction h with
  | nil => exact fun _ => ⟨hn, fun key => by simp [callsOf]⟩
  | @snoc tr db e db' _ hs ih =>
    intro hwell
    rw [callsOf_snoc] at hwell
    obtain ⟨hnodup, hkeys⟩ := ih fun c hc => hwell c (List.mem_append_left _ hc)
    rw [callsOf_snoc]
    cases hs with
    | stored c r hr =>
      obtain ⟨r', hr', -, hmem, hkeep⟩ := ingest_wellFormed (hwell c (by simp [PageEvent.call])) db
      obtain rfl := Except.ok.inj (hr.symm.trans hr')
      refine ⟨hkeep hnodup, fun key => ?_⟩
      rw [hmem, hkeys]
      simp [PageEvent.call, or_and_right, exists_or, or_assoc]
    | lost c => simpa [PageEvent.call] using ⟨hnodup, hkeys⟩
    | elsewhere _ htrades =>
      have hsame : tradeKeys db' = tradeKeys db := by
        unfold tradeKeys
        rw [htrades]
      rw [hsame]
      simpa [PageEvent.call] using ⟨hnodup, hkeys⟩

theorem pagesOf_iff {tx : Text} {tr : List (PageEvent × Db)} {pages : List (Nat × List Json)}
    (h : ∀ page, page ∈ pages ↔ ∃ c ∈ callsOf tr, (c.walletId, c.rows) = page) {key : String} :
    (∃ page ∈ pages, key ∈ pageKeys tx page.2) ↔ ∃ c ∈ callsOf tr, key ∈ pageKeys tx c.rows := by
  constructor
  · rintro ⟨page, hpage, hkey⟩
    obtain ⟨c, hc, rfl⟩ := (h page).mp hpage
    exact ⟨c, hc, hkey⟩
  · rintro ⟨c, hc, hkey⟩
    exact ⟨_, (h _).mpr ⟨c, hc, rfl⟩, hkey⟩

/-- After the same pages in any order, with replays and lost calls, the table holds the key of each
row once; a page that has been committed changes nothing any more; and each call accounts for
every row of its page. -/
theorem ingestion_idempotent (tx : Text) (db₀ db : Db) (tr : List (PageEvent × Db))
    (pages : List (Nat × List Json)) (hkeys : (tradeKeys db₀).Nodup)
    (hrun : Run (PageStep tx) db₀ tr db) (hwell : ∀ c ∈ callsOf tr, c.WellFormed tx)
    (hpages : ∀ page, page ∈ pages ↔ ∃ c ∈ callsOf tr, (c.walletId, c.rows) = page) :
    (∀ key, key ∈ tradeKeys db ↔ key ∈ tradeKeys db₀ ∨ ∃ page ∈ pages, key ∈ pageKeys tx page.2) ∧
    (tradeKeys db).Nodup ∧
    (∀ tr' db', Run (PageStep tx) db₀ tr' db' → (∀ c ∈ callsOf tr', c.WellFormed tx) →
      (∀ page, page ∈ pages ↔ ∃ c ∈ callsOf tr', (c.walletId, c.rows) = page) →
      (tradeKeys db').Perm (tradeKeys db)) ∧
    (∀ c : PageCall, (c.walletId, c.rows) ∈ pages → c.ingest tx db = .ok ⟨db, 0, []⟩) ∧
    ∀ (c : PageCall) (now : Db), (c.WellFormed tx → ∃ r, c.ingest tx now = .ok r) ∧
      ∀ r, c.ingest tx now = .ok r →
        r.inserted + r.quarantined.length + alreadyStored tx c.rows now +
          pageRepeats tx c.rows = c.rows.length := by
  obtain ⟨hnodup, hmem⟩ := pageRun_keys hrun hkeys hwell
  refine ⟨fun key => ?_, hnodup, fun tr' db' hrun' hwell' hpages' => ?_, fun c hc => ?_,
    fun c now => ⟨fun hc => ?_, ?_⟩⟩
  · rw [hmem, pagesOf_iff hpages]
  · obtain ⟨hnodup', hmem'⟩ := pageRun_keys hrun' hkeys hwell'
    refine (List.perm_ext_iff_of_nodup hnodup' hnodup).mpr fun key => ?_
    rw [hmem, hmem', ← pagesOf_iff hpages, ← pagesOf_iff hpages']
  · obtain ⟨c', hc', heq⟩ := (hpages _).mp hc
    obtain ⟨-, hrows⟩ := Prod.mk.inj heq
    refine ingest_replayed ?_ fun key hkey => ?_
    · rw [← hrows]
      exact (hwell c' hc').identified
    · rw [hasTrade_iff, hmem]
      exact .inr ⟨c', hc', hrows ▸ hkey⟩
  · obtain ⟨r, hr, -⟩ := ingest_wellFormed hc now
    exact ⟨r, hr⟩
  · exact fun r hr => ingest_counts hr

/-! Two pages that share a row; the second is lost once, the first is replayed. -/

namespace Overlap

def row (hash : String) : Json :=
  .obj [("transactionHash", .str hash), ("proxyWallet", .str "w"),
    ("asset", .str "7"), ("conditionId", .str "c"),
    ("side", .str "BUY"), ("outcome", .str "Yes"), ("size", .num "1"),
    ("price", .num "0.5"), ("timestamp", .num "1")]

def env : PageEnv := ⟨fun _ => .ok (.arr []), fun _ => none, 0⟩

def first : PageCall := ⟨1, [row "0x2", row "0x1", row "0x2"], false, env⟩

def second : PageCall := ⟨1, [row "0x3", row "0x2"], false, env⟩

def stored : List String :=
  ["data-api:0x2:w:7:1:0.5:1", "data-api:0x1:w:7:1:0.5:1", "data-api:0x3:w:7:1:0.5:1"]

theorem row_inserts (hash key : String) (db : Db) :
    ∃ db', insertTrade Text.plain env false 1 key (row hash) db = .ok db' := by
  have hmarket : ∃ p, getOrCreateMarket Text.plain "c" false (.ok (.arr [])) db = .ok p := by
    unfold getOrCreateMarket
    split
    · exact ⟨_, rfl⟩
    · exact ⟨_, rfl⟩
  obtain ⟨p, hmarket⟩ := hmarket
  have hone : (Dec.parse "1").bind Dec.value = some 1 := by decide +kernel
  have hhalf : (Dec.parse "0.5").bind Dec.value = some (1 / 2) := by decide +kernel
  have hyears : (-62135596800 : ℚ) ≤ 1 ∧ (1 : ℚ) < 253402300800 := by decide +kernel
  have htime : parseTradedAt Text.plain (row hash) = .ok (micros 1) := by
    unfold parseTradedAt
    have hget : (row hash).get "timestamp" = .ok (.num "1") := rfl
    simp only [hget, bind, Except.bind, Json.isNumber, if_true, Json.number?, hone]
    rw [if_pos hyears]
  have hsize : numeric (.num "1") = .ok 1 := by
    simp only [numeric, Json.toDec, hone]
  have hprice : numeric (.num "0.5") = .ok (1 / 2) := by
    simp only [numeric, Json.toDec, hhalf]
  suffices h : insertTrade Text.plain env false 1 key (row hash) db = .ok { p.1 with
      trades := p.1.trades ++
        [⟨Keyed.fresh Trade.id p.1.trades, key, p.2.id, 1, some "7", .buy, "Yes", 1, 1 / 2,
        micros 1, 0⟩] } from ⟨_, h⟩
  have hfields : (row hash).item "conditionId" = .ok (.str "c") ∧
      (row hash).get "asset" = .ok (.str "7") ∧
      (row hash).item "side" = .ok (.str "BUY") ∧ (row hash).get "outcome" = .ok (.str "Yes") ∧
      (row hash).item "size" = .ok (.num "1") ∧ (row hash).item "price" = .ok (.num "0.5") :=
    ⟨rfl, rfl, rfl, rfl, rfl, rfl⟩
  obtain ⟨hcondition, hasset, hside, houtcome, hrawSize, hrawPrice⟩ := hfields
  unfold insertTrade
  simp only [hcondition, hasset, hside, houtcome, hrawSize, hrawPrice, bind, Except.bind,
    Json.text, env, hmarket, htime, hsize, hprice]
  rfl

theorem wellFormed {c : PageCall} (hwallet : c.walletId = 1)
    (hmeta : c.fetchMetadata = false) (henv : c.env = env)
    (hrows : ∀ raw ∈ c.rows, raw ∈ [row "0x1", row "0x2", row "0x3"]) :
    c.WellFormed Text.plain := by
  constructor
  · intro raw hraw
    have hmem := hrows raw hraw
    simp only [List.mem_cons, List.not_mem_nil, or_false] at hmem
    rcases hmem with rfl | rfl | rfl
    · exact ⟨"data-api:0x1:w:7:1:0.5:1", by decide +kernel⟩
    · exact ⟨"data-api:0x2:w:7:1:0.5:1", by decide +kernel⟩
    · exact ⟨"data-api:0x3:w:7:1:0.5:1", by decide +kernel⟩
  · intro raw hraw key _ db _
    have hmem := hrows raw hraw
    rw [hwallet, hmeta, henv]
    simp only [List.mem_cons, List.not_mem_nil, or_false] at hmem
    rcases hmem with rfl | rfl | rfl
    all_goals exact row_inserts _ key db

theorem run : ∃ db tr, Run (PageStep Text.plain) Db.empty tr db ∧
    callsOf tr = [first, second, first] := by
  have hfirst : first.WellFormed Text.plain := wellFormed rfl rfl rfl (by simp [first])
  have hsecond : second.WellFormed Text.plain := wellFormed rfl rfl rfl (by simp [second])
  obtain ⟨r₁, h₁, -⟩ := ingest_wellFormed hfirst Db.empty
  obtain ⟨r₂, h₂, -⟩ := ingest_wellFormed hsecond r₁.db
  obtain ⟨r₃, h₃, -⟩ := ingest_wellFormed hfirst r₂.db
  have hlost := (Run.single (PageStep.stored first r₁ h₁)).snoc _ _ (PageStep.lost second)
  exact ⟨_, _, (hlost.snoc _ _ (PageStep.stored second r₂ h₂)).snoc _ _
    (PageStep.stored first r₃ h₃), rfl⟩

end Overlap

theorem ingestion_idempotent_overlap : ∃ db tr, Run (PageStep Text.plain) Db.empty tr db ∧
    callsOf tr = [Overlap.first, Overlap.second, Overlap.first] ∧
    (tradeKeys db).Perm Overlap.stored ∧
    Overlap.second.ingest Text.plain db = .ok ⟨db, 0, []⟩ := by
  obtain ⟨db, tr, hrun, hcalls⟩ := Overlap.run
  have hwell : ∀ c ∈ callsOf tr, c.WellFormed Text.plain := by
    rw [hcalls]
    intro c hc
    simp only [List.mem_cons, List.not_mem_nil, or_false] at hc
    rcases hc with rfl | rfl | rfl
    all_goals exact Overlap.wellFormed rfl rfl rfl (by simp [Overlap.first, Overlap.second])
  have hpages : ∀ page, page ∈ [(1, Overlap.first.rows), (1, Overlap.second.rows)] ↔
      ∃ c ∈ callsOf tr, (c.walletId, c.rows) = page := by
    intro page
    rw [hcalls]
    simp [Overlap.first, Overlap.second, eq_comm, or_comm]
  obtain ⟨hmem, hnodup, -, hreplayed, -⟩ :=
    ingestion_idempotent Text.plain Db.empty db tr _ List.nodup_nil hrun hwell hpages
  refine ⟨db, tr, hrun, hcalls, ?_, hreplayed Overlap.second (by simp [Overlap.second])⟩
  have hstored : Overlap.stored.Nodup := by decide +kernel
  refine (List.perm_ext_iff_of_nodup hnodup hstored).mpr fun key => ?_
  have hfirst : pageKeys Text.plain Overlap.first.rows =
      ["data-api:0x2:w:7:1:0.5:1", "data-api:0x1:w:7:1:0.5:1", "data-api:0x2:w:7:1:0.5:1"] := by
        decide +kernel
  have hsecond : pageKeys Text.plain Overlap.second.rows =
      ["data-api:0x3:w:7:1:0.5:1", "data-api:0x2:w:7:1:0.5:1"] := by
    decide +kernel
  rw [hmem]
  simp only [List.mem_cons, List.not_mem_nil, or_false, exists_eq_or_imp,
    exists_eq_left, hfirst, hsecond, Overlap.stored, tradeKeys, Db.empty, List.map_nil, false_or]
  tauto

end Polycopy
