import Polycopy.Lib.AntiJoin
import Polycopy.Execution.Outcomes
import Polycopy.Ingestion.Idempotent
import Polycopy.Schedule

/-!
# Signal detection over a backlog

Calls of `detect_signals`, each on any answer its query can give, and trades added
between them while the approvals stay as they are.  Such a run is a run of
`AntiJoin` on the trades and the signals (`detect_run_work`): what has been
signalled and what is still detectable are what the first state owed.

`detect_signals_exact` collects what follows: one call signals the oldest of the
backlog, repeated calls empty it, and once it is empty the signals are those owed,
whatever the batch sizes were and whenever the trades came.
-/

namespace Polycopy

open Runs

/-- A signal as it is created for a trade, column by column. -/
structure Copies (s : Signal) (t : Trade) : Prop where
  source : s.sourceTradeId = t.polymarketTradeId
  wallet : s.walletId = t.walletId
  market : s.marketId = t.marketId
  asset : s.assetId = t.assetId
  side : s.side = t.side
  outcome : s.outcome = t.outcome
  price : s.sourcePrice = t.price
  t0 : s.t0TradedAt = t.tradedAt
  t1 : s.t1DetectedAt = t.ingestedAt
  status : s.status = .pending ∧ s.killSwitchDeferrals = 0

/-- The wallet is approved since a time known, and the trade was made and seen from then on. -/
def Eligible (db : Db) (t : Trade) : Prop :=
  ∃ w since, db.wallet t.walletId = some w ∧ w.approvalState = .approved ∧
    w.approvedAt = some since ∧
    since ≤ t.tradedAt ∧ since ≤ t.ingestedAt

/-- The `min n k` oldest-ingested of the `k` trades found. -/
structure Oldest (n : Nat) (found rows : List Trade) : Prop where
  count : rows.length = min n found.length
  oldest : ∃ rest, (rows ++ rest).Perm found ∧ ∀ t ∈ rows, ∀ u ∈ rest, t.ingestedAt ≤ u.ingestedAt

theorem QueryRows.oldest {n : Nat} {found rows : List Trade}
    (h : QueryRows Trade.ingestedAt n found rows) :
    Oldest n found rows := by
  obtain ⟨l, hp, hsorted, rfl⟩ := h
  refine ⟨by rw [List.length_take, hp.length_eq], l.drop n,
    by rw [List.take_append_drop]; exact hp, ?_⟩
  intro t ht u hu
  rw [← List.take_append_drop n l, List.pairwise_append] at hsorted
  exact hsorted.2.2 t ht u hu

/-! ## One call -/

theorem copies_ofTrade (id : Nat) (t : Trade) : Copies (Signal.ofTrade id t) t :=
  ⟨rfl, rfl, rfl, rfl, rfl, rfl, rfl, rfl, rfl, rfl, rfl⟩

/-- A call adds one signal for each row, and does nothing else. -/
theorem detectSignals_copies (rows : List Trade) : ∀ db, ∃ new, List.Forall₂ Copies new rows ∧
    detectSignals db rows = { db with signals := db.signals ++ new } := by
  induction rows with
  | nil => intro db; exact ⟨[], .nil, by rw [List.append_nil]; rfl⟩
  | cons t rest ih =>
    intro db
    obtain ⟨new, hcopies, he⟩ := ih (addSignal db t)
    refine ⟨Signal.ofTrade (Keyed.fresh Signal.id db.signals) t :: new,
      .cons (copies_ofTrade _ t) hcopies, ?_⟩
    refine he.trans ?_
    show ({ db with signals := (db.signals ++ [_]) ++ new } : Db) = _
    rw [List.append_assoc]
    rfl

/-- The row without its number, which depends on the order of the insertions. -/
def Signal.unnumbered (s : Signal) : Signal := { s with id := 0 }

theorem copies_iff {s : Signal} {t : Trade} : Copies s t ↔ s.unnumbered = Signal.ofTrade 0 t := by
  unfold Signal.unnumbered Signal.ofTrade
  rw [Signal.mk.injEq]
  constructor
  · intro h
    exact ⟨rfl, h.wallet, h.market, h.source, h.asset, h.side, h.outcome, h.price,
      h.status.1, h.status.2, h.t0, h.t1⟩
  · rintro ⟨-, wallet, market, source, asset, side, outcome, price, status, deferrals, t0, t1⟩
    exact ⟨source, wallet, market, asset, side, outcome, price, t0, t1, status, deferrals⟩

theorem copies_unnumbered {new : List Signal} {rows : List Trade}
    (h : List.Forall₂ Copies new rows) :
    new.map Signal.unnumbered = rows.map (Signal.ofTrade 0) := by
  induction h with
  | nil => rfl
  | cons hone _ ih => rw [List.map_cons, List.map_cons, copies_iff.mp hone, ih]

/-! ## Runs -/

inductive DetectEvent
  | ingest (new : List Trade)
  | call (batch : Nat) (rows : List Trade)

/-- Trades are added under new keys, approvals and signals as they were; or a call is
made, with some batch size, on what its query answers. -/
inductive DetectStep : Db → DetectEvent → Db → Prop
  | ingest {db db' : Db} (new : List Trade) (wallets : db'.wallets = db.wallets)
      (signals : db'.signals = db.signals)
      (trades : db'.trades = db.trades ++ new) (unique : (tradeKeys db').Nodup) :
      DetectStep db (.ingest new) db'
  | call {db : Db} (batch : Nat) (positive : 1 ≤ batch) (rows : List Trade)
      (query : QueryRows Trade.ingestedAt batch (detectable db) rows) :
      DetectStep db (.call batch rows) (detectSignals db rows)

/-- The trades and signals as an anti-join's items and results. -/
def work (db : Db) : AntiJoin.Work Trade Signal := ⟨db.trades, db.signals.map Signal.unnumbered⟩

/-- The part of the query that asks for the wallet. -/
def copyable (db : Db) (t : Trade) : Bool :=
  copyEnabled (db.wallet t.walletId) t.tradedAt t.ingestedAt

theorem copyable_iff {db : Db} {t : Trade} : copyable db t = true ↔ Eligible db t := copyEnabled_iff

theorem ofTrade_source (t : Trade) : (Signal.ofTrade 0 t).sourceTradeId = t.polymarketTradeId := rfl

/-- The steps of the anti-join for the approvals of `db`. -/
abbrev WorkStep (db : Db) : AntiJoin.Work Trade Signal → AntiJoin.Event Trade →
    AntiJoin.Work Trade Signal → Prop :=
  AntiJoin.Step Trade.polymarketTradeId Signal.sourceTradeId (Signal.ofTrade 0) (copyable db)

theorem work_keys (db : Db) : (work db).done.map Signal.sourceTradeId =
    db.signals.map Signal.sourceTradeId := by
  show (db.signals.map Signal.unnumbered).map Signal.sourceTradeId = _
  rw [List.map_map]
  rfl

theorem detectable_eq (db : Db) :
    detectable db = AntiJoin.pending Trade.polymarketTradeId (copyable db)
    (work db).items ((work db).done.map Signal.sourceTradeId) := by
  rw [work_keys]
  refine List.filter_congr fun t _ => ?_
  show (copyable db t && !alreadySignaled db t) = _
  congr 1
  rw [Bool.eq_iff_iff, Bool.not_eq_true', decide_eq_true_eq]
  unfold alreadySignaled
  rw [List.any_eq_false, List.mem_map]
  constructor
  · rintro h ⟨s, hs, he⟩
    exact h s hs (decide_eq_true he)
  · intro h s hs he
    exact h ⟨s, hs, of_decide_eq_true he⟩

theorem mem_detectable {db : Db} {t : Trade} : t ∈ detectable db ↔
    t ∈ db.trades ∧ Eligible db t ∧ ∀ s ∈ db.signals, s.sourceTradeId ≠ t.polymarketTradeId := by
  rw [detectable_eq, AntiJoin.mem_pending, work_keys, copyable_iff, List.mem_map]
  refine and_congr Iff.rfl (and_congr Iff.rfl ?_)
  constructor
  · intro h s hs he
    exact h ⟨s, hs, he⟩
  · rintro h ⟨s, hs, he⟩
    exact h s hs he

/-- A call takes its rows from what is pending. -/
theorem detect_work (db : Db) (rows : List Trade) :
    (work (detectSignals db rows)).items = (work db).items ∧
      (detectSignals db rows).wallets = db.wallets ∧
      (work (detectSignals db rows)).done = (work db).done ++ rows.map (Signal.ofTrade 0) := by
  obtain ⟨new, hcopies, he⟩ := detectSignals_copies rows db
  rw [he]
  refine ⟨rfl, rfl, ?_⟩
  show (db.signals ++ new).map Signal.unnumbered = _
  rw [List.map_append, copies_unnumbered hcopies]
  rfl

theorem copyable_congr {db db' : Db} (h : db'.wallets = db.wallets) :
    copyable db' = copyable db := by
  funext t
  unfold copyable Db.wallet
  rw [h]

/-- Every step is one of the anti-join. -/
theorem DetectStep.work {db db' : Db} {e : DetectEvent} (h : DetectStep db e db') :
    db'.wallets = db.wallets ∧ ∃ e', WorkStep db (work db) e' (work db') := by
  cases h with
  | ingest new wallets signals trades unique =>
    refine ⟨wallets, .arrive new, ?_⟩
    have hwork : Polycopy.work db' = ⟨(Polycopy.work db).items ++ new, (Polycopy.work db).done⟩ := by
      unfold Polycopy.work
      rw [signals, trades]
    rw [hwork]
    refine .arrive _ _ ?_
    rw [tradeKeys, trades] at unique
    exact unique
  | call batch _ rows query =>
    obtain ⟨hitems, hwallets, hdone⟩ := detect_work db rows
    refine ⟨hwallets, .take rows, ?_⟩
    obtain ⟨rest, hperm, -⟩ := query.oldest.oldest
    rw [detectable_eq] at hperm
    have hwork : Polycopy.work (detectSignals db rows) =
        ⟨(Polycopy.work db).items, (Polycopy.work db).done ++ rows.map (Signal.ofTrade 0)⟩ := by
      rw [← hitems, ← hdone]
    rw [hwork]
    exact .take _ rows rest hperm

/-- A run of calls and ingestions is a run of the anti-join. -/
theorem detect_run_work {db db' : Db} {tr : List (DetectEvent × Db)}
    (h : Run DetectStep db tr db') :
    db'.wallets = db.wallets ∧ ∃ tr', Run (WorkStep db) (work db) tr' (work db') := by
  induction h with
  | nil => exact ⟨rfl, [], .nil⟩
  | snoc e u _ hs ih =>
    obtain ⟨hw, tr', hr⟩ := ih
    obtain ⟨hw', e', hstep⟩ := hs.work
    rw [WorkStep, copyable_congr hw] at hstep
    exact ⟨hw'.trans hw, _, hr.snoc e' _ hstep⟩

/-- Signals are only added. -/
theorem detect_run_signals {db db' : Db} {tr : List (DetectEvent × Db)}
    (h : Run DetectStep db tr db') :
    ∃ new, db'.signals = db.signals ++ new := by
  refine Run.inv (fun d => ∃ new, d.signals = db.signals ++ new) ?_ h ⟨[], (List.append_nil _).symm⟩
  rintro d e d' ⟨before, hd⟩ hs
  cases hs with
  | ingest new wallets signals trades unique => exact ⟨before, signals.trans hd⟩
  | call batch _ rows query =>
    obtain ⟨new, -, he⟩ := detectSignals_copies rows d
    exact ⟨before ++ new, by rw [he, ← List.append_assoc, ← hd]⟩

/-! ## Ingestion between the calls -/

/-- The writes of a page keep the trades' keys unique. -/
theorem writeRows_unique (tx : Py.Text) (env : PageEnv) (fetchMetadata : Bool) (walletId : Nat)
    (fresh : List (String × Py.Json)) : ∀ acc : Ingested, (fresh.map Prod.fst).Nodup →
      (∀ kv ∈ fresh, kv.1 ∉ tradeKeys acc.db) → (tradeKeys acc.db).Nodup →
      (tradeKeys (fresh.foldl (writeRow tx env fetchMetadata walletId) acc).db).Nodup := by
  induction fresh with
  | nil => intro acc _ _ hn; exact hn
  | cons kv fresh ih =>
    intro acc hfresh hnew hn
    rw [List.map_cons, List.nodup_cons] at hfresh
    have hkeys : tradeKeys (writeRow tx env fetchMetadata walletId acc kv).db = tradeKeys acc.db ∨
        tradeKeys (writeRow tx env fetchMetadata walletId acc kv).db =
          tradeKeys acc.db ++ [kv.1] := by
      unfold writeRow
      split
      · next db hins =>
        obtain ⟨markets, t, hkey, -, rfl⟩ := insertTrade_ok hins
        right
        show (acc.db.trades ++ [t]).map Trade.polymarketTradeId = _
        rw [List.map_append, List.map_singleton, hkey]
        rfl
      · exact .inl rfl
    rw [List.foldl_cons]
    rcases hkeys with hkeys | hkeys
    · refine ih _ hfresh.2 ?_ (by rw [hkeys]; exact hn)
      intro kv' h
      rw [hkeys]
      exact hnew kv' (List.mem_cons_of_mem _ h)
    · refine ih _ hfresh.2 ?_ ?_
      · intro kv' h
        rw [hkeys, List.mem_append, List.mem_singleton, not_or]
        exact ⟨hnew kv' (List.mem_cons_of_mem _ h), fun he => hfresh.1 (he ▸ List.mem_map_of_mem h)⟩
      · rw [hkeys, List.nodup_append]
        refine ⟨hn, List.nodup_singleton _, fun a ha b hb he => ?_⟩
        rw [List.mem_singleton.mp hb] at he
        exact hnew kv List.mem_cons_self (he ▸ ha)

/-- A page ingested between two calls is such an addition of trades. -/
theorem ingest_detectStep {tx : Py.Text} {env : PageEnv} {fetchMetadata : Bool}
    {walletId : Nat} {rows : List Py.Json} {db : Db} {r : Ingested} (hn : (tradeKeys db).Nodup)
    (h : ingestTradeRows tx env fetchMetadata walletId rows db = .ok r) :
    ∃ new, DetectStep db (.ingest new) r.db := by
  obtain ⟨⟨keyed, quarantined⟩, hkeyed, h⟩ := Py.bind_ok h
  obtain rfl := Except.ok.inj h
  have hfresh := ((keyRows_page hkeyed).unique List.nodup_nil).sublist
    ((List.filter_sublist (p := fun kv => !db.hasTrade kv.1)).map Prod.fst)
  obtain ⟨⟨⟨new, hnew⟩, markets, trades, hdb⟩, -⟩ := writeRows_written tx env fetchMetadata walletId
    (keyed.filter fun kv => !db.hasTrade kv.1) ⟨db, 0, quarantined⟩
  refine ⟨new, .ingest new (by rw [hdb]) (by rw [hdb]) hnew ?_⟩
  refine writeRows_unique tx env fetchMetadata walletId _
    ⟨db, 0, quarantined⟩ hfresh (fun kv hkv => ?_) hn
  rw [← hasTrade_iff]
  simpa using (List.mem_filter.mp hkv).2

/-! ## What detection is for -/

/-- The two unique constraints. -/
structure UniqueSources (db : Db) : Prop where
  trades : (tradeKeys db).Nodup
  signals : (db.signals.map Signal.sourceTradeId).Nodup

/-- The signals of `db'` are those of `db` and one for each trade that is owed one. -/
structure SignalledExactly (db db' : Db) : Prop where
  once : ∀ t ∈ db'.trades, Eligible db' t →
    (db'.signals.map Signal.sourceTradeId).count t.polymarketTradeId = 1
  added : ∃ new, db'.signals = db.signals ++ new ∧
    (∀ s ∈ new, ∃ t ∈ db'.trades, Eligible db' t ∧ Copies s t) ∧
    ∀ t ∈ db'.trades, ¬ Eligible db' t → ∀ s ∈ new, s.sourceTradeId ≠ t.polymarketTradeId

section
variable {db : Db} (keys : UniqueSources db)
include keys

theorem work_unique : ((work db).items.map Trade.polymarketTradeId).Nodup := keys.trades

/-- The owed and the taken, for a run of calls and ingestions. -/
theorem detect_owed {db' : Db} {tr : List (DetectEvent × Db)} (h : Run DetectStep db tr db') :
    db'.wallets = db.wallets ∧ ∃ taken,
      AntiJoin.Owed Trade.polymarketTradeId Signal.sourceTradeId (Signal.ofTrade 0)
      (copyable db) (work db) (work db') taken := by
  obtain ⟨hw, tr', hr⟩ := detect_run_work h
  exact ⟨hw, AntiJoin.owed_run ofTrade_source (work_unique keys) hr⟩

theorem detect_run_exact {db' : Db} {tr : List (DetectEvent × Db)} (h : Run DetectStep db tr db')
    (hd : detectable db' = []) : SignalledExactly db db' := by
  obtain ⟨hw, taken, ho⟩ := detect_owed keys h
  have hcopy : copyable db' = copyable db := copyable_congr hw
  have hnodup : (db'.signals.map Signal.sourceTradeId).Nodup := by
    rw [← work_keys]
    exact ho.nodup ofTrade_source (by rw [work_keys]; exact keys.signals)
  rw [detectable_eq, hcopy] at hd
  refine ⟨fun t ht he => ?_, ?_⟩
  · have hserved := AntiJoin.served hd ht (by rw [← hcopy]; exact copyable_iff.mpr he)
    rw [work_keys] at hserved
    exact List.count_eq_one_of_mem hnodup hserved
  · obtain ⟨new, hnew⟩ := detect_run_signals h
    have htaken : new.map Signal.unnumbered = taken.map (Signal.ofTrade 0) := by
      have hdone := ho.done
      change db'.signals.map Signal.unnumbered = db.signals.map Signal.unnumbered ++ _ at hdone
      rw [hnew, List.map_append] at hdone
      exact List.append_cancel_left hdone
    have hcopies : ∀ s ∈ new, ∃ t ∈ db'.trades, Eligible db' t ∧ Copies s t := by
      intro s hs
      obtain ⟨t, ht, he⟩ :=
        List.mem_map.mp (htaken ▸ List.mem_map_of_mem (f := Signal.unnumbered) hs)
      obtain ⟨hmem, hp, -⟩ := ho.sub ht
      exact ⟨t, hmem, copyable_iff.mp (hcopy ▸ hp), copies_iff.mpr he.symm⟩
    refine ⟨new, hnew, hcopies, fun t ht hne s hs hkey => ?_⟩
    obtain ⟨t', ht', he', hc⟩ := hcopies s hs
    obtain rfl : t' = t :=
      Keyed.eq_of_key Trade.polymarketTradeId ho.unique ht' ht (hc.source.symm.trans hkey)
    exact hne he'

/-- A call leaves the backlog shorter by what it signalled. -/
theorem detect_backlog {n : Nat} {rows : List Trade}
    (h : QueryRows Trade.ingestedAt n (detectable db) rows) :
    (detectable (detectSignals db rows)).length = (detectable db).length - n := by
  obtain ⟨hcount, rest, hperm, -⟩ := h.oldest
  obtain ⟨hitems, hwallets, hdone⟩ := detect_work db rows
  have hlen := hperm.length_eq
  rw [detectable_eq] at hperm
  have hrest := AntiJoin.take_rest ofTrade_source (work_unique keys) hperm
  rw [← hitems, ← hdone, ← copyable_congr hwallets, ← detectable_eq] at hrest
  rw [← hrest.length_eq]
  rw [List.length_append] at hlen
  omega

theorem detect_call_unique {n : Nat} {rows : List Trade}
    (h : QueryRows Trade.ingestedAt n (detectable db) rows)
    (hn : 1 ≤ n) : UniqueSources (detectSignals db rows) := by
  have hrun : Run DetectStep db _ (detectSignals db rows) := Run.single (.call n hn rows h)
  obtain ⟨-, taken, ho⟩ := detect_owed keys hrun
  refine ⟨ho.unique, ?_⟩
  rw [← work_keys]
  exact ho.nodup ofTrade_source (by rw [work_keys]; exact keys.signals)

end

/-- `n` at a time, `m` calls shorten the backlog by `n * m`. -/
theorem detect_calls {n : Nat} {db db' : Db} (keys : UniqueSources db)
    {tr : List (DetectEvent × Db)} (h : Run DetectStep db tr db')
    (hcalls : ∀ x ∈ tr, ∃ rows, x.1 = .call n rows) :
    UniqueSources db' ∧ (detectable db').length = (detectable db).length - n * tr.length := by
  induction h with
  | nil => exact ⟨keys, by simp⟩
  | snoc e u _ hs ih =>
    obtain ⟨hkeys, hlen⟩ := ih fun x hx => hcalls x (List.mem_append_left _ hx)
    obtain ⟨rows, he⟩ := hcalls (e, u) (List.mem_append_right _ (List.mem_singleton_self _))
    dsimp only at he
    subst he
    cases hs with
    | call _ hn _ query =>
      refine ⟨detect_call_unique hkeys query hn, ?_⟩
      rw [detect_backlog hkeys query, hlen, List.length_append,
        List.length_singleton, Nat.mul_add, Nat.mul_one]
      omega

/-- What a detection is to do from a state of the tables: the backlog is the trades owed a
signal; a call signals its oldest, each with the trade's own columns, and changes nothing
else; calls alone empty it; emptied, the signals are the ones owed; and two ways of getting
there with the same trades end in the same signals, up to their numbers and order. -/
structure ExactDetection (db : Db) : Prop where
  backlog : ∀ t, t ∈ detectable db ↔
    t ∈ db.trades ∧ Eligible db t ∧ ∀ s ∈ db.signals, s.sourceTradeId ≠ t.polymarketTradeId
  answers : ∀ n, ∃ rows, QueryRows Trade.ingestedAt n (detectable db) rows
  oneCall : ∀ n rows, QueryRows Trade.ingestedAt n (detectable db) rows →
    Oldest n (detectable db) rows ∧
      ∃ new, List.Forall₂ Copies new rows ∧
      detectSignals db rows = { db with signals := db.signals ++ new }
  emptied : ∀ n, 1 ≤ n → ∀ tr db', Run DetectStep db tr db' →
    (∀ x ∈ tr, ∃ rows, x.1 = .call n rows) →
    (detectable db').length = (detectable db).length - n * tr.length
  exact : ∀ tr db', Run DetectStep db tr db' → detectable db' = [] → SignalledExactly db db'
  unordered : ∀ tr₁ tr₂ db₁ db₂, Run DetectStep db tr₁ db₁ → Run DetectStep db tr₂ db₂ →
    db₁.trades.Perm db₂.trades → detectable db₁ = [] → detectable db₂ = [] →
      (db₁.signals.map Signal.unnumbered).Perm (db₂.signals.map Signal.unnumbered)

/-- **Detection is exact, and does not depend on the batches.** -/
theorem detect_signals_exact {db : Db} (keys : UniqueSources db) : ExactDetection db where
  backlog _ := mem_detectable
  answers n := ⟨_, queryRows_spec Trade.ingestedAt n (detectable db)⟩
  oneCall _ rows h := ⟨h.oldest, detectSignals_copies rows db⟩
  emptied _ _ _ _ h hcalls := (detect_calls keys h hcalls).2
  exact _ _ h hd := detect_run_exact keys h hd
  unordered := by
    intro tr₁ tr₂ db₁ db₂ h₁ h₂ htrades hd₁ hd₂
    obtain ⟨hw₁, taken₁, ho₁⟩ := detect_owed keys h₁
    obtain ⟨hw₂, taken₂, ho₂⟩ := detect_owed keys h₂
    rw [detectable_eq, copyable_congr hw₁] at hd₁
    rw [detectable_eq, copyable_congr hw₂] at hd₂
    exact AntiJoin.drained_unique ho₁ ho₂ htrades hd₁ hd₂

def backlogTrade (id : Nat) (key : String) (ingestedAt : Time) : Trade :=
  ⟨id, key, 1, 1, some "token", .buy, "Yes", 10, 1 / 2, 1, ingestedAt⟩

/-- One approved wallet, two trades, no signal yet. -/
def backlogDb : Db :=
  { Db.empty with
    wallets := [⟨1, "0xw", .approved, some 0⟩]
    trades := [backlogTrade 1 "a" 5, backlogTrade 2 "b" 3] }

/-- Two calls with batch size 1 empty a backlog of two. -/
theorem detect_signals_exact_backlog : (detectable backlogDb).length = 2 ∧
    ∀ tr db', Run DetectStep backlogDb tr db' →
      (∀ x ∈ tr, ∃ rows, x.1 = .call 1 rows) → tr.length = 2 →
      detectable db' = [] := by
  have htwo : (detectable backlogDb).length = 2 := by decide +kernel
  refine ⟨htwo, fun tr db' h hcalls hlen => ?_⟩
  have := (@detect_signals_exact backlogDb ⟨by decide, by decide⟩).emptied 1
    (le_refl 1) tr db' h hcalls
  rw [htwo, hlen] at this
  exact List.length_eq_zero_iff.mp this

end Polycopy
