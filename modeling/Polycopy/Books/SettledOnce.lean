import Polycopy.Schedule

/-!
# Settled positions stay settled

The refresh commits a settlement together with `closed`, and the bot settles
only between two signals.  So a BUY whose gates saw the market open has no
settled position to fill (`SettledOk.flight`): a settled row is never opened
again.  Each position is therefore posted once, and the exposure over all
positions is the cost of the open ones.
-/

namespace Polycopy

/-! ## A settled position is empty and its market closed -/

/-- Every settlement belongs to a stored market that is closed. -/
def SettledClosed (db : Db) : Prop :=
  ∀ st ∈ db.settlements, ∃ m, db.market st.marketId = some m ∧ m.closed = true

structure SettledOk (s : Sys) : Prop where
  quantity : ∀ p ∈ s.db.positions, 0 ≤ p.quantity
  empty : ∀ p ∈ s.db.positions, p.settledAt ≠ none → p.quantity = 0
  settlement : ∀ p ∈ s.db.positions, p.settledAt ≠ none → ∃ st, s.db.settlement p.marketId = some st
  closed : SettledClosed s.db
  flight : ∀ f, s.pc.flight = some f → f.signal.side = .buy →
    ∀ p ∈ s.db.positions, p.marketId = f.signal.marketId → p.settledAt = none

theorem settledOk_init (cfg : Settings) (clock : Time) : SettledOk (Sys.init cfg clock) := by
  refine ⟨?_, ?_, ?_, ?_, ?_⟩
  · intro p hp; cases hp
  · intro p hp; cases hp
  · intro p hp; cases hp
  · intro st hst; cases hst
  · intro f hf; cases hf

/-- An open market has no settlement. -/
theorem SettledClosed.open_unsettled {db : Db} (h : SettledClosed db) {m : Market} {id : Nat}
    (hm : db.market id = some m) (hopen : m.closed = false) : db.settlement id = none := by
  cases hst : db.settlement id with
  | none => rfl
  | some st =>
    obtain ⟨hmem, hid⟩ := Keyed.find_some Settlement.marketId hst
    obtain ⟨m', hm', hc⟩ := h st hmem
    rw [hid, hm] at hm'
    obtain rfl := Option.some.inj hm'
    rw [hopen] at hc
    cases hc

theorem updateMarket_find {db : Db} {id : Nat} {f : Market → Market}
    (keeps : KeepsMarket f) (id' : Nat) :
    (updateMarket id f db).market id' = (db.market id').map fun m => if m.id = id then f m else m :=
  Keyed.find_update Market.id (fun m => (keeps m).1) db.markets

/-- A market row that was closed, and not written or written closed, is closed still. -/
theorem updateMarket_closed {db : Db} {id : Nat} {f : Market → Market}
    (keeps : KeepsMarket f) {id' : Nat} {m' : Market} (hm' : db.market id' = some m')
    (hother : m'.id ≠ id → m'.closed = true) (hself : m'.id = id → (f m').closed = true) :
    ∃ m, (updateMarket id f db).market id' = some m ∧ m.closed = true := by
  rw [updateMarket_find keeps, hm']
  refine ⟨_, rfl, ?_⟩
  show (if m'.id = id then f m' else m').closed = true
  split
  · next he => exact hself he
  · next hne => exact hother hne

/-- Other processes keep settlements, and keep settled markets closed. -/
theorem Elsewhere.settled {tx : Py.Text} {cfg : Settings} {now : Time} {db db' : Db} {e : Event}
    (h : Elsewhere tx cfg now db e db') (hc : SettledClosed db) :
    SettledClosed db' ∧ ∀ id st, db.settlement id = some st → db'.settlement id = some st := by
  cases h with
  | ingestTrade | throttle | overview => exact ⟨hc, fun id st h => h⟩
  | ingestMarket m id key =>
    refine ⟨fun st hst => ?_, fun id st h => h⟩
    obtain ⟨m', hm', hcl⟩ := hc st hst
    refine ⟨m', ?_, hcl⟩
    show Keyed.find Market.id st.marketId (db.markets ++ [m]) = some m'
    unfold Db.market at hm'
    rw [Keyed.find_append, hm']
    rfl
  | resolve id winner f keeps closes exists_market unsettled =>
    refine ⟨fun st hst => ?_, fun id' st h => ?_⟩
    · rcases List.mem_append.mp hst with hst | hst
      · obtain ⟨m', hm', hcl⟩ := hc st hst
        exact updateMarket_closed keeps hm' (fun _ => hcl) fun _ => closes m'
      · obtain rfl := List.mem_singleton.mp hst
        obtain ⟨m', hm'⟩ := Option.isSome_iff_exists.mp exists_market
        have hid := (Keyed.find_some Market.id hm').2
        exact updateMarket_closed keeps hm' (fun hne => absurd hid hne) fun _ => closes m'
    · show Keyed.find Settlement.marketId id' (db.settlements ++ [_]) = some st
      unfold Db.settlement at h
      rw [Keyed.find_append, h]
      rfl
  | backfill id f keeps unsettled =>
    refine ⟨fun st hst => ?_, fun id st h => h⟩
    obtain ⟨m', hm', hcl⟩ := hc st hst
    refine updateMarket_closed keeps hm' (fun _ => hcl) fun he => ?_
    -- the market written has no settlement, this one has
    have hid := (Keyed.find_some Market.id hm').2
    have := (Keyed.find_none Settlement.marketId).mp unsettled st hst
    exact absurd (hid.symm.trans he) this
  | addWallet _ address label h => rw [addWallet_ok h]; exact ⟨hc, fun id st h => h⟩
  | transition _ walletId action h =>
    obtain ⟨w, queue, -, -, rfl⟩ := transitionWallet_ok h
    exact ⟨hc, fun id st h => h⟩
  | verdict _ verdict walletId h =>
    obtain rfl | ⟨w, target, queue, -, -, -, rfl⟩ :=
      applyVerdict_ok h <;> exact ⟨hc, fun id st h => h⟩
  | settings p l =>
    unfold updateBankrollSettings
    rw [getOrCreate_withAccount]
    dsimp only
    split <;> exact ⟨hc, fun id st h => h⟩

/-! ## The step lemma -/

/-- The part of `SettledOk` that speaks of positions and settlements. -/
structure SettledRows (db : Db) : Prop where
  quantity : ∀ p ∈ db.positions, 0 ≤ p.quantity
  empty : ∀ p ∈ db.positions, p.settledAt ≠ none → p.quantity = 0
  settlement : ∀ p ∈ db.positions, p.settledAt ≠ none → ∃ st, db.settlement p.marketId = some st

theorem SettledOk.rows {s : Sys} (h : SettledOk s) : SettledRows s.db :=
  ⟨h.quantity, h.empty, h.settlement⟩

theorem settle_rows (cfg : Settings) (now : Time) (rows : List (Position × Settlement)) :
    ∀ db : Db, SettledRows db → (∀ row ∈ rows, db.settlement row.1.marketId = some row.2) →
      SettledRows (settlePaperPositions cfg now db rows) := by
  induction rows with
  | nil => intro db h _; exact h
  | cons row rest ih =>
    intro db h hrows
    obtain ⟨p, st⟩ := row
    have hst := hrows _ List.mem_cons_self
    refine ih _ ?_ ?_
    · rw [settlePosition_eq]
      refine ⟨?_, ?_, ?_⟩
      · intro q hq
        rcases Keyed.mem_put_of Position.key hq with rfl | hq
        · exact le_refl _
        · exact h.quantity q hq
      · intro q hq hs
        rcases Keyed.mem_put_of Position.key hq with rfl | hq
        · rfl
        · exact h.empty q hq hs
      · intro q hq hs
        rcases Keyed.mem_put_of Position.key hq with rfl | hq
        · exact ⟨st, hst⟩
        · exact h.settlement q hq hs
    · intro row hrow
      rw [settlePosition_eq]
      exact hrows row (List.mem_cons_of_mem _ hrow)

/-- A fill never lands on a settled row. -/
theorem FillStep.unsettled {s t : Sys} {b : Batch} {f : Flight}
    {fill : Fill} {snapshot : BookSnapshot} {fee : ℚ} {marketFee : MarketFee} {e : Event}
    (h : FillStep s b f fill snapshot fee marketFee e t)
    (hok : SettledOk s) : (positionFor s.view f.signal).settledAt = none := by
  have hf : s.pc.flight = some f := by rw [h.pc]; rfl
  have hmarket := positionFor_marketId s.view f.signal
  have hle := h.guard.size_le
  have hpos := h.guard.walk.size_pos
  unfold positionFor at hmarket hle ⊢
  cases hp : s.view.position f.signal.positionKey with
  | none => rfl
  | some p =>
    rw [hp] at hmarket hle
    change p.marketId = f.signal.marketId at hmarket
    have hmem : p ∈ s.db.positions := (Keyed.find_some Position.key hp).1
    show p.settledAt = none
    rcases h.guard.traded with hs | hs
    · exact hok.flight f hf hs p hmem hmarket
    · by_contra hset
      have hzero := hok.empty p hmem hset
      have := hle hs
      change fill.filledSize ≤ p.quantity at this
      rw [hzero] at this
      exact absurd (lt_of_lt_of_le hpos this) (lt_irrefl 0)

theorem FillStep.rows {s t : Sys} {b : Batch} {f : Flight} {fill : Fill} {snapshot : BookSnapshot}
    {fee : ℚ} {marketFee : MarketFee} {e : Event}
    (h : FillStep s b f fill snapshot fee marketFee e t)
    (hok : SettledOk s) : SettledRows t.db := by
  have hnone := h.unsettled hok
  have hq := fill_quantity_nonneg h.guard (positionFor_nonneg hok.quantity f.signal)
  have hset := (fill_settlement (positionFor s.view f.signal) f.signal.side fill fee).2
  obtain ⟨-, -, guard, rfl⟩ := h
  show SettledRows (commitFill s.cfg s.view f.signal f.now s.clock fill snapshot fee marketFee)
  rw [commitFill_eq]
  refine ⟨?_, ?_, ?_⟩
  · intro p hp
    rcases Keyed.mem_put_of Position.key hp with rfl | hp
    · exact hq
    · exact hok.quantity p hp
  · intro p hp hs
    rcases Keyed.mem_put_of Position.key hp with rfl | hp
    · exact absurd (hset.trans hnone) hs
    · exact hok.empty p hp hs
  · intro p hp hs
    rcases Keyed.mem_put_of Position.key hp with rfl | hp
    · exact absurd (hset.trans hnone) hs
    · exact hok.settlement p hp hs

theorem SettledOk.step {pw : Py.DecPow} {tx : Py.Text} {s t : Sys} {e : Event} (ok : SysOk s)
    (hok : SettledOk s) (h : Step pw tx s e t) : SettledOk t := by
  have hrest : SettledClosed t.db ∧ ∀ id st, s.db.settlement id = some st →
      t.db.settlement id = some st := by
    cases h with
    | tick d h => exact ⟨hok.closed, fun id st h => h⟩
    | crash cfg => exact ⟨hok.closed, fun id st h => h⟩
    | elsewhere _ db h lock => exact h.settled hok.closed
    | bot _ _ h =>
      obtain ⟨-, hm, -, hs⟩ := h.frame
      unfold SettledClosed Db.market Db.settlement
      rw [hm, hs]
      exact ⟨hok.closed, fun id st h => h⟩
  have hrows : SettledRows t.db := by
    cases h.kind ok with
    | filled b f fill snapshot fee marketFee hf => exact hf.rows hok
    | settled startedAt rows event query after =>
      subst after
      refine settle_rows s.cfg startedAt rows s.db hok.rows fun row hrow => ?_
      exact (mem_settleRows.mp (query.mem_iff.mp hrow)).2.2
    | swept limit amount event limit_pos amount_pos le_pile le_free after =>
      subst after
      exact ⟨hok.quantity, hok.empty, hok.settlement⟩
    | other event positions fills money =>
      refine ⟨?_, ?_, ?_⟩
      · rw [positions]; exact hok.quantity
      · rw [positions]; exact hok.empty
      · rw [positions]
        intro p hp hs
        obtain ⟨st, hst⟩ := hok.settlement p hp hs
        exact ⟨st, hrest.2 _ _ hst⟩
  refine ⟨hrows.quantity, hrows.empty, hrows.settlement, hrest.1, ?_⟩
  intro f hf hbuy p hp hm
  rcases h.flight hf with hold | ⟨id, hb⟩
  · -- in flight already: the step was not one of the bot's two writes of positions
    cases h.kind ok with
    | filled b g fill snapshot fee marketFee hfill =>
      obtain ⟨-, -, -, rfl⟩ := hfill
      cases hf
    | settled startedAt rows event query after =>
      subst after
      cases hf
    | swept limit amount event limit_pos amount_pos le_pile le_free after =>
      subst after
      cases hf
    | other event positions fills money =>
      rw [positions] at hp
      exact hok.flight f hold hbuy p hp hm
  · -- the gates saw the market open, so none of its positions is settled
    rw [hb.same.1] at hp
    obtain ⟨m, hmk, hopen, -⟩ := hb.requested.open_market
    have huns := hok.closed.open_unsettled hmk hopen
    by_contra hs
    obtain ⟨st, hst⟩ := hok.settlement p hp hs
    rw [hm, huns] at hst
    cases hst

section
variable {pw : Py.DecPow} {tx : Py.Text} {cfg : Settings} {t0 : Time}
  {tr : List (Event × Sys)} {s : Sys}

theorem SysRun.settledOk (h : SysRun pw tx cfg t0 tr s) : SettledOk s := by
  have key : SysOk s ∧ SettledOk s :=
    h.inv (fun s => SysOk s ∧ SettledOk s) (fun _ _ _ hi hs => ⟨hs.ok hi.1, hi.2.step hi.1 hs⟩)
      ⟨sysOk_init cfg t0, settledOk_init cfg t0⟩
  exact key.2

/-- Exposure over all positions is the cost of the open ones. -/
theorem SettledRows.exposure {db : Db} (h : SettledRows db) :
    globalExposure db = openPositionCost db := by
  have key : ∀ l : List Position, (∀ p ∈ l, 0 ≤ p.quantity) →
      (∀ p ∈ l, p.settledAt ≠ none → p.quantity = 0) →
      (l.map Position.cost).sum = ((l.filter Position.isOpen).map Position.cost).sum := by
    intro l
    induction l with
    | nil => intro _ _; rfl
    | cons p l ih =>
      intro hq he
      have hrest := ih (fun p hp => hq p (List.mem_cons_of_mem _ hp)) fun p hp =>
        he p (List.mem_cons_of_mem _ hp)
      rw [List.map_cons, List.sum_cons, hrest, List.filter_cons]
      split
      · rw [List.map_cons, List.sum_cons]
      · next hclosed =>
        -- a closed position is empty
        have hzero : p.quantity = 0 := by
          by_cases hs : p.settledAt = none
          · have hle : ¬ 0 < p.quantity := by
              intro hpos
              exact hclosed (by simp [Position.isOpen, hpos, hs])
            exact le_antisymm (not_lt.mp hle) (hq p List.mem_cons_self)
          · exact he p List.mem_cons_self hs
        rw [Position.cost, hzero, zero_mul, zero_add]
  exact key db.positions h.quantity h.empty

end

/-! ## Each position is posted once -/

def Decision.settledId : Decision → Option Nat
  | .paperPositionSettled positionId _ _ _ _ _ _ _ => some positionId
  | _ => none

def LedgerContext.settledId : LedgerContext → Option Nat
  | .settlement positionId _ _ _ _ => some positionId
  | _ => none

/-- The log entries that settle a position. -/
def settlementEntries (db : Db) (id : Nat) : List DecisionLogEntry :=
  (bookLog db).filter fun e => e.decision.settledId = some id

/-- The settlement P&L the ledger holds for a position. -/
def settlementPostings (db : Db) (id : Nat) : List ℚ :=
  (db.ledger.filter fun e => e.context.settledId = some id).map BankrollLedgerEntry.amount

/-- What a position has had posted: its settlement P&L if it is settled, nothing of zero. -/
def Position.posted (p : Position) : List ℚ := p.settlementRealizedPnl.toList.filter (· ≠ 0)

structure PostedOnce (db : Db) : Prop where
  entries : ∀ p ∈ db.positions, (settlementEntries db p.id).length =
    if p.settledAt.isSome then 1 else 0
  postings : ∀ p ∈ db.positions, settlementPostings db p.id = p.posted
  unsettled : ∀ p ∈ db.positions, p.settledAt = none → p.settlementRealizedPnl = none
  entries_new : ∀ id, id ∉ db.positions.map Position.id → settlementEntries db id = []
  postings_new : ∀ id, id ∉ db.positions.map Position.id → settlementPostings db id = []

theorem postedOnce_empty : PostedOnce Db.empty := by
  refine ⟨?_, ?_, ?_, fun _ _ => rfl, fun _ _ => rfl⟩
  · intro p hp; cases hp
  · intro p hp; cases hp
  · intro p hp; cases hp

theorem settlementEntries_log (db : Db) (actor : String) (d : Decision) (id : Nat) :
    settlementEntries (db.log actor d) id =
      settlementEntries db id ++ if d.settledId = some id then [⟨actor, d⟩] else [] := by
  unfold settlementEntries
  rw [bookLog_log, List.filter_append]
  cases d <;> simp [Decision.isBook, Decision.settledId]
  split <;> simp_all

theorem settlementPostings_snoc (db : Db) (e : BankrollLedgerEntry) (id : Nat) :
    ((db.ledger ++ [e]).filter fun e => e.context.settledId =
      some id).map BankrollLedgerEntry.amount =
      settlementPostings db id ++ if e.context.settledId = some id then [e.amount] else [] := by
  unfold settlementPostings
  rw [List.filter_append, List.map_append]
  by_cases h : e.context.settledId = some id <;> simp [h]

/-- The postings of a database one `post_realized_pnl` later. -/
theorem posted_postings (cfg : Settings) (db : Db) (amount : ℚ)
    (context : LedgerContext) (id : Nat) :
    settlementPostings (postRealizedPnl cfg db amount context) id = settlementPostings db id ++
      if context.settledId = some id then [amount].filter (· ≠ 0) else [] := by
  by_cases h : amount = 0
  · rw [h, postRealizedPnl_zero]
    simp
  · rw [postRealizedPnl_eq cfg db amount context h]
    unfold settlementPostings
    rw [settlementPostings_snoc]
    simp [settlementPostings, h]

/-- Writes that add no settlement: the log and the ledger may only gain other entries. -/
theorem PostedOnce.quiet {db db' : Db} (h : PostedOnce db) (hpos : db'.positions = db.positions)
    (he : ∀ id, settlementEntries db' id = settlementEntries db id)
    (hp : ∀ id, settlementPostings db' id = settlementPostings db id) : PostedOnce db' := by
  obtain ⟨h1, h2, h3, h4, h5⟩ := h
  refine ⟨?_, ?_, ?_, ?_, ?_⟩
  all_goals rw [hpos]
  · intro p hp'; rw [he]; exact h1 p hp'
  · intro p hp'; rw [hp]; exact h2 p hp'
  · exact h3
  · intro id hid; rw [he]; exact h4 id hid
  · intro id hid; rw [hp]; exact h5 id hid

theorem PostedOnce.same {cfg : Settings} {db db' : Db} (h : PostedOnce db)
    (hs : SameBooks cfg db db') :
    PostedOnce db' := by
  refine h.quiet hs.positions (fun id => ?_) fun id => ?_
  · unfold settlementEntries; rw [hs.log]
  · unfold settlementPostings; rw [hs.ledger]

theorem PostedOnce.missed {db : Db} (h : PostedOnce db) (cfg : Settings)
    (s : Signal) (reason : MissReason) (now : Time) (book : Option BookEvidence) :
    PostedOnce (recordSkip cfg db s reason now book) := by
  refine h.quiet rfl (fun id => ?_) fun id => rfl
  unfold recordSkip
  rw [settlementEntries_log]
  exact List.append_nil _

theorem PostedOnce.swept {db : Db} (h : PostedOnce db) (cfg : Settings) (limit amount : ℚ) :
    PostedOnce (postWithdrawal (withAccount cfg db) (accountOf cfg db) limit amount) := by
  refine h.quiet rfl (fun id => ?_) fun id => ?_
  · unfold postWithdrawal
    rw [settlementEntries_log]
    exact List.append_nil _
  · exact (settlementPostings_snoc db _ id).trans (List.append_nil _)

/-- The numbers of the table after a row is written. -/
theorem mem_put_ids {db : Db} {p : Position} {id : Nat}
    (h : id ∉ (Keyed.put Position.key p db.positions).map Position.id)
    (hn : (db.positions.map Position.key).Nodup)
    (hstored : ∀ q, db.position p.key = some q → q.id = p.id) :
    id ≠ p.id ∧ id ∉ db.positions.map Position.id := by
  refine ⟨?_, fun hm => ?_⟩
  · rintro rfl
    exact h (List.mem_map_of_mem (Keyed.mem_put_self Position.key p db.positions))
  · obtain ⟨q, hq, rfl⟩ := List.mem_map.mp hm
    by_cases hk : q.key = p.key
    · have hfind := Keyed.find_of_mem Position.key hn hq
      rw [hk] at hfind
      rw [hstored q hfind] at h
      exact h (List.mem_map_of_mem (Keyed.mem_put_self Position.key p db.positions))
    · exact h (List.mem_map_of_mem (Keyed.mem_put_of_ne Position.key hq hk))

/-! A fill settles nothing, and writes the row of `positionFor`. -/

theorem fill_settlementEntries (cfg : Settings) (db : Db) (s : Signal)
    (now retrievedAt : Time) (fill : Fill) (snapshot : BookSnapshot) (fee : ℚ)
    (marketFee : MarketFee) (id : Nat) :
    settlementEntries (commitFill cfg db s now retrievedAt fill snapshot fee marketFee) id =
      settlementEntries db id := by
  rw [commitFill_eq, settlementEntries_log]
  exact List.append_nil _

theorem fill_settlementPostings (cfg : Settings) (db : Db) (s : Signal)
    (now retrievedAt : Time) (fill : Fill) (snapshot : BookSnapshot) (fee : ℚ)
    (marketFee : MarketFee) (id : Nat) :
    settlementPostings (commitFill cfg db s now retrievedAt fill snapshot fee marketFee) id =
      settlementPostings db id := by
  rw [commitFill_eq]
  show settlementPostings (postFill cfg db s _) id = _
  unfold postFill
  split
  · rfl
  · rw [posted_postings]
    exact List.append_nil _

/-- The row the signal trades: a stored one, or a new one with an unused number. -/
theorem PostedOnce.traded {db : Db} (h : PostedOnce db) (s : Signal) :
    (settlementEntries db (positionFor db s).id).length =
      (if (positionFor db s).settledAt.isSome then 1 else 0) ∧
      settlementPostings db (positionFor db s).id = (positionFor db s).posted ∧
      ((positionFor db s).settledAt = none → (positionFor db s).settlementRealizedPnl = none) := by
  unfold positionFor
  cases hp : db.position s.positionKey with
  | some p =>
    have hmem := (Keyed.find_some Position.key hp).1
    exact ⟨h.entries p hmem, h.postings p hmem, h.unsettled p hmem⟩
  | none =>
    have hfresh := Keyed.fresh_not_mem Position.id db.positions
    have he : settlementEntries db (newPosition db.positions s).id = [] := h.entries_new _ hfresh
    have hp : settlementPostings db (newPosition db.positions s).id = [] := h.postings_new _ hfresh
    rw [Option.getD_none, he, hp]
    exact ⟨rfl, rfl, fun _ => rfl⟩

/-- The row written keeps the number of the stored row it replaces. -/
theorem fill_stored_id {db : Db} {s : Signal} {fill : Fill} {fee : ℚ} {q : Position}
    (hq : db.position ((positionFor db s).fill s.side fill fee).key = some q) :
    q.id = ((positionFor db s).fill s.side fill fee).id := by
  rw [fill_key, positionFor_key] at hq
  rw [fill_id]
  unfold positionFor
  rw [hq]
  rfl

theorem PostedOnce.filled {cfg : Settings} {db : Db} {s : Signal} {fill : Fill} {fee : ℚ}
    (h : PostedOnce db) (ht : Tables db) (now retrievedAt : Time) (snapshot : BookSnapshot)
    (marketFee : MarketFee) :
    PostedOnce (commitFill cfg db s now retrievedAt fill snapshot fee marketFee) := by
  have hid := fill_id (positionFor db s) s.side fill fee
  obtain ⟨hfs, hfa⟩ := fill_settlement (positionFor db s) s.side fill fee
  obtain ⟨hrowEntries, hrowPostings, hrowUnsettled⟩ := h.traded s
  have hmem : ∀ p ∈ (commitFill cfg db s now retrievedAt fill snapshot fee marketFee).positions,
      p = (positionFor db s).fill s.side fill fee ∨ p ∈ db.positions := by
    rw [commitFill_eq]
    exact fun p hp => Keyed.mem_put_of Position.key hp
  have hids : ∀ id, id ∉
      (commitFill cfg db s now retrievedAt fill snapshot fee marketFee).positions.map Position.id →
      id ∉ db.positions.map Position.id := by
    rw [commitFill_eq]
    exact fun id h => (mem_put_ids h ht.positionKeys fun q => fill_stored_id).2
  refine ⟨?_, ?_, ?_, ?_, ?_⟩
  · intro p hp
    rw [fill_settlementEntries]
    rcases hmem p hp with rfl | hp
    · rw [hid, hfa]; exact hrowEntries
    · exact h.entries p hp
  · intro p hp
    rw [fill_settlementPostings]
    rcases hmem p hp with rfl | hp
    · unfold Position.posted
      rw [hid, hfs]
      exact hrowPostings
    · exact h.postings p hp
  · intro p hp
    rcases hmem p hp with rfl | hp
    · rw [hfs, hfa]; exact hrowUnsettled
    · exact h.unsettled p hp
  · intro id hid
    rw [fill_settlementEntries]
    exact h.entries_new id (hids id hid)
  · intro id hid
    rw [fill_settlementPostings]
    exact h.postings_new id (hids id hid)

/-! A settlement adds one entry and at most one posting, both for its own row. -/

theorem settle_settlementEntries (cfg : Settings) (db : Db) (p : Position)
    (st : Settlement) (now : Time) (id : Nat) :
    (settlementEntries (settlePosition cfg now db (p, st)) id).length =
      (settlementEntries db id).length + if p.id = id then 1 else 0 := by
  rw [settlePosition_eq, settlementEntries_log, List.length_append]
  by_cases hid : p.id = id <;> simp [Decision.settledId, hid] <;> rfl

theorem settle_settlementPostings (cfg : Settings) (db : Db) (p : Position)
    (st : Settlement) (now : Time) (id : Nat) :
    settlementPostings (settlePosition cfg now db (p, st)) id =
      settlementPostings db id ++ if p.id = id then [settlementPnl p st].filter (· ≠ 0) else [] := by
  rw [settlePosition_eq]
  show settlementPostings (postSettlement cfg db p st) id = _
  unfold postSettlement
  rw [posted_postings]
  by_cases hid : p.id = id <;> simp [LedgerContext.settledId, hid]

theorem settle_rows_of {cfg : Settings} {db : Db} (ht : Tables db)
    {p : Position} (hp : p ∈ db.positions) {st : Settlement} {now : Time} {q : Position}
    (hq : q ∈ (settlePosition cfg now db (p, st)).positions) :
    q = p.settle st now ∨ (q ∈ db.positions ∧ p.id ≠ q.id) := by
  rw [settlePosition_eq] at hq
  rcases Keyed.mem_put Position.key ht.positionKeys hq with rfl | ⟨hq, hk⟩
  · exact Or.inl rfl
  · refine Or.inr ⟨hq, fun hid => hk ?_⟩
    have := Keyed.eq_of_key Position.id ht.positionIds hp hq hid
    rw [← this]
    rfl

theorem settle_new_id {cfg : Settings} {db : Db} (ht : Tables db)
    {p : Position} (hp : p ∈ db.positions) {st : Settlement} {now : Time} {id : Nat}
    (hid : id ∉ (settlePosition cfg now db (p, st)).positions.map Position.id) :
    p.id ≠ id ∧ id ∉ db.positions.map Position.id := by
  rw [settlePosition_eq] at hid
  have hstored : ∀ q, db.position (p.settle st now).key = some q → q.id = (p.settle st now).id := by
    intro q hq
    have := Keyed.find_of_mem Position.key ht.positionKeys hp
    rw [← Option.some.inj (this.symm.trans hq)]
    rfl
  obtain ⟨h1, h2⟩ := mem_put_ids hid ht.positionKeys hstored
  exact ⟨fun he => h1 he.symm, h2⟩

theorem PostedOnce.settled {cfg : Settings} {db : Db} (h : PostedOnce db)
    (ht : Tables db) {p : Position} {st : Settlement} (now : Time) (hp : p ∈ db.positions)
    (hopen : p.isOpen = true) :
    PostedOnce (settlePosition cfg now db (p, st)) := by
  have hnone : p.settledAt = none := by
    unfold Position.isOpen at hopen
    simpa using (Bool.and_eq_true_iff.mp hopen).2
  refine ⟨?_, ?_, ?_, ?_, ?_⟩
  · intro q hq
    rw [settle_settlementEntries]
    rcases settle_rows_of ht hp hq with rfl | ⟨hq, hne⟩
    · rw [show (p.settle st now).id = p.id from rfl, h.entries p hp, hnone, if_pos rfl]
      rfl
    · rw [if_neg hne, add_zero]
      exact h.entries q hq
  · intro q hq
    rw [settle_settlementPostings]
    rcases settle_rows_of ht hp hq with rfl | ⟨hq, hne⟩
    · rw [show (p.settle st now).id = p.id from rfl, h.postings p hp, if_pos rfl]
      unfold Position.posted
      rw [h.unsettled p hp hnone]
      rfl
    · rw [if_neg hne, List.append_nil]
      exact h.postings q hq
  · intro q hq hs
    rcases settle_rows_of ht hp hq with rfl | ⟨hq, -⟩
    · cases hs
    · exact h.unsettled q hq hs
  · intro id hid
    obtain ⟨hne, hold⟩ := settle_new_id ht hp hid
    refine List.length_eq_zero_iff.mp ?_
    rw [settle_settlementEntries, if_neg hne, h.entries_new id hold]
    rfl
  · intro id hid
    obtain ⟨hne, hold⟩ := settle_new_id ht hp hid
    rw [settle_settlementPostings, if_neg hne, h.postings_new id hold]
    rfl

theorem PostedOnce.effect {cfg : Settings} {db db' : Db} (ht : Tables db) (h : PostedOnce db)
    (he : Effect cfg db db') : PostedOnce db' := by
  cases he with
  | same hs => exact h.same hs
  | detected | deferred => exact h.quiet rfl (fun _ => rfl) fun _ => rfl
  | missed s reason now book held => exact h.missed cfg s reason now book
  | filled s plan now retrievedAt fill snapshot fee marketFee guard =>
    exact h.filled ht now retrievedAt snapshot marketFee
  | settled p st now mem isOpen settlement => exact h.settled ht now mem isOpen
  | swept limit amount => exact h.swept cfg limit amount

theorem SysRun.postedOnce {pw : Py.DecPow} {tx : Py.Text} {cfg : Settings} {t0 : Time}
    {tr : List (Event × Sys)} {s : Sys} (h : SysRun pw tx cfg t0 tr s) : PostedOnce s.db :=
  (h.books_inv (fun _ => True) (fun _ db => PostedOnce db) postedOnce_empty
    (fun _ _ _ ht hi he => hi.effect ht he) (fun _ _ _ _ _ hi => hi) trivial fun _ _ => trivial).2

/-! ## A settlement pass realizes every open position of a settled market -/

theorem settle_untouched (cfg : Settings) (now : Time) (rows : List (Position × Settlement)) :
    ∀ (db : Db) (key : Nat × Nat × String), (∀ row ∈ rows, row.1.key ≠ key) →
      (settlePaperPositions cfg now db rows).position key = db.position key := by
  induction rows with
  | nil => intro db key _; rfl
  | cons row rest ih =>
    intro db key hne
    obtain ⟨p, st⟩ := row
    refine (ih (settlePosition cfg now db (p, st)) key fun r hr =>
      hne r (List.mem_cons_of_mem _ hr)).trans ?_
    rw [settlePosition_eq]
    show Keyed.find Position.key key (Keyed.put Position.key (p.settle st now) db.positions) = _
    rw [Keyed.find_put, if_neg]
    · rfl
    · exact hne (p, st) List.mem_cons_self

theorem settle_realizes (cfg : Settings) (now : Time) (rows : List (Position × Settlement)) :
    ∀ (db : Db), (rows.map fun row => row.1.key).Nodup → ∀ row ∈ rows,
      (settlePaperPositions cfg now db rows).position row.1.key = some (row.1.settle row.2 now) := by
  induction rows with
  | nil => intro db _ row hrow; cases hrow
  | cons head rest ih =>
    intro db hn row hrow
    obtain ⟨p, st⟩ := head
    rw [List.map_cons, List.nodup_cons] at hn
    rcases List.mem_cons.mp hrow with rfl | hrow
    · refine (settle_untouched cfg now rest (settlePosition cfg now db (p, st)) p.key ?_).trans ?_
      · exact fun r hr he => hn.1 (List.mem_map.mpr ⟨r, hr, he⟩)
      · rw [settlePosition_eq]
        show Keyed.find Position.key p.key
          (Keyed.put Position.key (p.settle st now) db.positions) = _
        rw [Keyed.find_put]
        exact if_pos rfl
    · exact ih (settlePosition cfg now db (p, st)) hn.2 row hrow

/-- In every state of every run: no settled position holds shares; each position has been posted
once if it is settled and not at all if not; the next settlement pass realizes every open
position of a settled market; and both exposure totals agree. -/
theorem settled_stays_settled (pw : Py.DecPow) (tx : Py.Text) (cfg : Settings) (t0 : Time)
    (tr : List (Event × Sys)) (s : Sys) (h : SysRun pw tx cfg t0 tr s) :
    (∀ p ∈ s.db.positions, ¬ (0 < p.quantity ∧ p.settledAt ≠ none)) ∧
    (∀ p ∈ s.db.positions, (settlementEntries s.db p.id).length =
      (if p.settledAt.isSome then 1 else 0) ∧
      settlementPostings s.db p.id = p.posted) ∧
    (∀ t, Step pw tx s .settle t → ∀ p ∈ s.db.positions, ∀ st, p.isOpen = true →
      s.db.settlement p.marketId = some st → ∃ now, t.db.position p.key = some (p.settle st now)) ∧
    globalExposure s.db = openPositionCost s.db := by
  have hok := h.settledOk
  have hpost := h.postedOnce
  refine ⟨?_, fun p hp => ⟨hpost.entries p hp, hpost.postings p hp⟩, ?_, hok.rows.exposure⟩
  · rintro p hp ⟨hq, hs⟩
    exact absurd (hok.empty p hp hs) hq.ne'
  · intro t hstep p hp st hopen hst
    cases hstep.kind h.ok with
    | filled b f fill snapshot fee marketFee hf => cases hf.event
    | swept limit amount event => cases event
    | other event => exact absurd rfl event
    | settled startedAt rows event query after =>
      subst after
      have hrow : (p, st) ∈ rows := query.mem_iff.mpr (mem_settleRows.mpr ⟨hp, hopen, hst⟩)
      have hn := (query.map _).nodup_iff.mpr (settleRows_keys h.ok.tables.positionKeys)
      exact ⟨startedAt, settle_realizes s.cfg startedAt rows s.db hn (p, st) hrow⟩

/-- The market resolves while the BUY waits for its fee; the next cycle settles what it bought. -/
def resolvedInFlight : List Command :=
  enrol ++ [.ingestTrade (sampleTrade 1 "a" 1 .buy 0)] ++ startCycle ++
    [.tick 30, .begin, .book (flatBook "0.5"), .resolve 1 "Yes", .fee noFee] ++ endCycle ++ [.detect]

theorem settled_stays_settled_resolvedInFlight :
    openPositionCost (outcome liveSettings resolvedInFlight).db = 10 ∧
    globalExposure (outcome liveSettings resolvedInFlight).db =
      openPositionCost (outcome liveSettings resolvedInFlight).db :=
  ⟨by decide +kernel, (settled_stays_settled _ _ _ _ _ _ (history_run (by decide +kernel))).2.2.2⟩

end Polycopy
