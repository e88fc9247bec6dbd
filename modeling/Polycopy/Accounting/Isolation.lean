import Polycopy.Accounting.Detection

/-!
# One bad answer and the other markets

The loop of `refresh_settlements` over the markets it has selected.  A `Turn` is what
happens to one of them: the answers to its requests, a settlement another process
commits meanwhile, and whether the database takes what the turn writes.  Only the
lookup is inside the `try`; `Handled` is what the rest of the body needs to get to its
commit, and `refresh_isolates_iff` that the call isolates its markets exactly where
every market it reaches is handled.
-/

namespace Polycopy

open Py

/-! ## The loop -/

structure Turn where
  asset : Option String
  responses : Responses
  /-- The outcome another process settles the market with, before this turn's commit. -/
  settledFirst : Option String
  /-- The database refuses a value of the row, for its length or its encoding. -/
  refused : Bool

/-- Of the other process's commit only the `settlements` row is read. -/
def Turn.elsewhere (t : Turn) (m : Market) (db : Db) : Db :=
  match t.settledFirst with
  | none => db
  | some winner => { db with settlements := db.settlements ++ [⟨m.id, winner⟩] }

/-- `uq_settlements_market`. -/
def Db.uniqueSettlements (db : Db) : Bool := (db.settlements.map Settlement.marketId).Nodup

/-- The body of the loop, with the database's answer to its commit. -/
def takeMarket (tx : Text) (now : Time) (db : Db) (m : Market) (t : Turn)
    (stats : RefreshStats) : Checked :=
  match checkMarket tx now (t.elsewhere m db) m t.asset t.responses stats with
  | .raised => .raised
  | .committed after stats stop =>
    if t.refused || !after.uniqueSettlements then .raised else .committed after stats stop

inductive RefreshEnd
  | raised
  | returned (db : Db) (stats : RefreshStats)

def refreshEach (tx : Text) (turns : Market → Turn) (now : Time) :
    List Market → Db → RefreshStats → RefreshEnd
  | [], db, stats => .returned db stats
  | m :: rest, db, stats =>
    match takeMarket tx now db m (turns m) stats with
    | .raised => .raised
    | .committed db stats stop =>
      if stop then .returned db stats else refreshEach tx turns now rest db stats

/-- Whether the call asks for any market at all. -/
def skipsRefresh (filters : Filters) (now : Time) (db : Db) : Bool :=
  filters.conditionIds = some [] || gammaBackoffActive db now

/-- `rows` is what its query selects. -/
def refreshSettlements (tx : Text) (turns : Market → Turn) (filters : Filters) (now : Time)
    (rows : List Market) (db : Db) :
    RefreshEnd :=
  if skipsRefresh filters now db then .returned db .zero else refreshEach tx turns now rows db .zero

/-! ## Isolation -/

def Turn.lookup (tx : Text) (m : Market) (t : Turn) : Except Exc (Option Dict × Bool) :=
  lookupClosedGammaMarket tx m t.asset t.responses

/-- The lookup meets a 429. -/
def Turn.limited (tx : Text) (m : Market) (t : Turn) : Bool :=
  match t.lookup tx m with
  | .error (.apiError (some _)) => true
  | _ => false

/-- The markets up to the first 429. -/
def reached (tx : Text) (turns : Market → Turn) : List Market → List Market
  | [] => []
  | m :: rest => m :: if (turns m).limited tx m then [] else reached tx turns rest

/-- The attempt is counted, and the next check is set unless the market is settled. -/
structure Attempted (now : Time) (m : Market) (db : Db) (row : Market) : Prop where
  found : db.market m.id = some row
  last : row.settlementLastCheckedAt = some now
  attempts : row.settlementAttemptCount = m.settlementAttemptCount + 1
  next : (∃ next, row.settlementNextCheckAt = some next ∧ now < next) ∨
    (row.settlementNextCheckAt = none ∧ (db.settlement m.id).isSome = true)

/-- The object found is a valid resolution. -/
def Resolves (tx : Text) (m : Market) (t : Turn) (winner : String) : Prop :=
  ∃ gamma fallback, t.lookup tx m = .ok (some gamma, fallback) ∧ Winner tx gamma winner

/-- The call returns, having attempted every market up to the first 429 and
settled those that resolve. -/
def IsolatesMarkets (tx : Text) (turns : Market → Turn) (filters : Filters) (now : Time)
    (rows : List Market) (db : Db) :
    Prop :=
  ∃ after stats, refreshSettlements tx turns filters now rows db = .returned after stats ∧
    (skipsRefresh filters now db = false → stats.checked = (reached tx turns rows).length ∧
      ∀ m ∈ reached tx turns rows, (∃ row, Attempted now m after row) ∧
        ∀ winner, Resolves tx m (turns m) winner → after.settlement m.id = some ⟨m.id, winner⟩)

/-- What a turn needs to get to its commit, and through it. -/
structure Handled (tx : Text) (m : Market) (t : Turn) : Prop where
  stored : t.refused = false
  lookup : ∀ e, t.lookup tx m = .error e →
    (∃ retryAfter, e = .apiError retryAfter) ∨ e = .valueError
  lists : ∀ gamma fallback, t.lookup tx m = .ok (some gamma, fallback) →
    listLike (gamma.get "outcomes") = true ∧ listLike (gamma.get "clobTokenIds") = true
  legible : ∀ gamma fallback, t.lookup tx m = .ok (some gamma, fallback) →
    (gamma.get "closed").truthy = true → Legible tx gamma
  first : ∀ winner, Resolves tx m t winner → t.settledFirst = none

/-! ## The turn of one market -/

variable {tx : Text} {now : Time} {m : Market} {t : Turn}

/-- The map of tokens is built from two lists, whatever is in them. -/
theorem clobTokenMap_ok_iff {gamma : Dict} : (∃ tokens, clobTokenMap tx gamma = .ok tokens) ↔
    listLike (gamma.get "outcomes") = true ∧ listLike (gamma.get "clobTokenIds") = true := by
  rw [listLike_iff, listLike_iff]
  constructor
  · rintro ⟨tokens, h⟩
    obtain ⟨outcomes, houtcomes, h⟩ := bind_ok h
    obtain ⟨tokenIds, htokenIds, -⟩ := bind_ok h
    obtain ⟨items, hitems, -⟩ := bind_ok houtcomes
    obtain ⟨items', hitems', -⟩ := bind_ok htokenIds
    exact ⟨⟨items, hitems⟩, items', hitems'⟩
  · rintro ⟨⟨items, hitems⟩, items', hitems'⟩
    unfold clobTokenMap textsOf
    rw [hitems, hitems']
    exact ⟨_, rfl⟩

theorem backfillOutcomes_ok {gamma : Dict}
    (h : listLike (gamma.get "outcomes") = true) (m : Market × Bool) :
    ∃ m', backfillOutcomes gamma m = .ok m' := by
  unfold backfillOutcomes
  dsimp only
  split
  · next hnew =>
    rw [Bool.and_eq_true] at hnew
    obtain ⟨items, hitems⟩ := listLike_iff.mp h
    have hself : orEmpty (gamma.get "outcomes") = gamma.get "outcomes" := if_pos hnew.1
    rw [hself] at hitems
    rw [hitems]
    exact ⟨_, rfl⟩
  · exact ⟨_, rfl⟩

/-- The back-fill raises unless both lists can be read. -/
theorem backfillMarketMetadata_ok_iff {gamma : Dict} {m : Market} :
    (∃ r, backfillMarketMetadata tx gamma m = .ok r) ↔
    listLike (gamma.get "outcomes") = true ∧ listLike (gamma.get "clobTokenIds") = true := by
  constructor
  · rintro ⟨r, h⟩
    obtain ⟨m₁, -, h⟩ := bind_ok h
    obtain ⟨m₂, h, -⟩ := bind_ok h
    obtain ⟨tokens, h, -⟩ := bind_ok h
    exact clobTokenMap_ok_iff.mp ⟨tokens, h⟩
  · intro h
    obtain ⟨tokens, htokens⟩ := clobTokenMap_ok_iff.mpr h
    obtain ⟨m₁, hm₁⟩ :=
    backfillOutcomes_ok h.1 (backfillSlug tx gamma (backfillQuestion tx gamma (m, false)))
    unfold backfillMarketMetadata backfillTokens
    rw [hm₁]
    show ∃ r, (clobTokenMap tx gamma).bind _ >>= _ = _
    rw [htokens]
    exact ⟨_, rfl⟩

theorem retryDelay_pos (attempts : Nat) : 0 < retryDelay attempts := by
  unfold retryDelay
  have hpow : 0 < 2 ^ min (attempts - 1) 10 := Nat.two_pow_pos _
  exact_mod_cast Nat.lt_min.mpr ⟨by norm_num, by omega⟩

/-- The columns of the retry schedule, as a turn leaves them. -/
structure Scheduled (now : Time) (m row : Market) : Prop where
  last : row.settlementLastCheckedAt = some now
  attempts : row.settlementAttemptCount = m.settlementAttemptCount + 1
  next : ∃ next, row.settlementNextCheckAt = some next ∧ now < next

theorem scheduled_attempted (now : Time) (m : Market) : Scheduled now m (m.attempted now) :=
  ⟨rfl, rfl, _, rfl, lt_add_of_pos_right now (retryDelay_pos _)⟩

/-- What the commit of a turn writes. -/
inductive Writes (tx : Text) (now : Time) (m : Market) (t : Turn) (db : Db) : Db → Prop
  | noted (f : Market → Market) (throttle : Option Time) (keeps : KeepsMarket f)
      (schedule : ∀ row, Scheduled now m (f row)) (open' : ∀ winner, ¬ Resolves tx m t winner) :
      Writes tx now m t db { updateMarket m.id f db with gammaThrottle := throttle }
  | settled (f : Market → Market) (winner : String) (keeps : KeepsMarket f)
      (last : ∀ row, (f row).settlementLastCheckedAt = some now)
      (attempts : ∀ row, (f row).settlementAttemptCount = m.settlementAttemptCount + 1)
      (next : ∀ row, (f row).settlementNextCheckAt = none) (resolves : Resolves tx m t winner) :
      Writes tx now m t db { updateMarket m.id f db with
        settlements := db.settlements ++ [⟨m.id, winner⟩] }

theorem Scheduled.write {m' : Market} (h : Scheduled now m m') (row : Market) :
    Scheduled now m (m'.write row) :=
  ⟨h.last, h.attempts, h.next⟩

theorem Resolves.found {winner : String} (h : Resolves tx m t winner)
    {found : Option Dict} {fallback : Bool} (hlookup : t.lookup tx m = .ok (found, fallback)) :
    ∃ gamma, found = some gamma ∧ detectWinningOutcome tx gamma = .ok (some winner) := by
  obtain ⟨gamma, fallback', hfound, hwinner⟩ := h
  obtain ⟨rfl, -⟩ := Prod.mk.inj (Except.ok.inj (hlookup.symm.trans hfound))
  exact ⟨gamma, rfl, detectWinningOutcome_iff.mpr hwinner⟩

/-- An object proves one outcome at most. -/
theorem Resolves.unique {winner winner' : String} (h : Resolves tx m t winner)
    (h' : Resolves tx m t winner') : winner = winner' := by
  obtain ⟨gamma, fallback, hlookup, hwinner⟩ := h
  obtain ⟨gamma', hfound, hdetect'⟩ := h'.found hlookup
  obtain rfl := Option.some.inj hfound
  have hdetect := detectWinningOutcome_iff.mpr hwinner
  exact Option.some.inj (Except.ok.inj (hdetect.symm.trans hdetect'))

theorem not_resolves_of_error {e : Exc} (h : t.lookup tx m = .error e) (winner : String) :
    ¬ Resolves tx m t winner := by
  rintro ⟨gamma, fallback, hfound, -⟩
  rw [h] at hfound
  cases hfound

theorem failedCheck_writes (now : Time) (db : Db) (stats : RefreshStats) (retryAfter : Option ℚ)
    (open' : ∀ winner, ¬ Resolves tx m t winner) :
    ∃ after stats', failedCheck now db (m.attempted now) stats retryAfter =
      .committed after stats' retryAfter.isSome ∧
      stats'.checked = stats.checked ∧ Writes tx now m t db after := by
  cases retryAfter with
  | none =>
    exact ⟨_, _, rfl, rfl, .noted _ db.gammaThrottle (write_keeps _)
      (scheduled_attempted now m).write open'⟩
  | some seconds =>
    refine ⟨_, _, rfl, rfl, .noted _ _ (write_keeps _) (fun _ => ⟨rfl, rfl, _, rfl, ?_⟩) open'⟩
    exact lt_add_of_pos_right now (lt_max_of_lt_left (retryDelay_pos _))

/-- The row the back-fill leaves is due as the attempt left it. -/
theorem scheduled_backfill {gamma : Dict} {m' : Market} {changed : Bool}
    (h : backfillMarketMetadata tx gamma (m.attempted now) = .ok (m', changed)) :
    Scheduled now m m' := by
  have hattempted := scheduled_attempted now m
  have hlast := backfillMarketMetadata_kept Market.settlementLastCheckedAt
    (fun _ _ _ _ _ _ _ => rfl) h
  have hattempts :=
    backfillMarketMetadata_kept Market.settlementAttemptCount (fun _ _ _ _ _ _ _ => rfl) h
  have hnext := backfillMarketMetadata_kept Market.settlementNextCheckAt (fun _ _ _ _ _ _ _ => rfl) h
  refine ⟨hlast.trans hattempted.last, hattempts.trans hattempted.attempts, ?_⟩
  rw [hnext]
  exact hattempted.next

theorem foundMarket_writes {db : Db} {stats : RefreshStats} {gamma : Dict}
    {fallback : Bool} (h : Handled tx m t)
    (hlookup : t.lookup tx m = .ok (some gamma, fallback)) :
    ∃ after stats', foundMarket tx db (m.attempted now) stats gamma fallback =
      .committed after stats' false ∧
      stats'.checked = stats.checked ∧ Writes tx now m t db after := by
  have hlists : ∃ r, backfillMarketMetadata tx gamma (m.attempted now) = .ok r :=
    backfillMarketMetadata_ok_iff.mpr (h.lists gamma fallback hlookup)
  obtain ⟨⟨m', changed⟩, hback⟩ := hlists
  obtain ⟨winner?, hdetect⟩ := (detectWinningOutcome_ok_iff (h.lists gamma fallback hlookup).1).mpr
    (h.legible gamma fallback hlookup)
  have hid : m'.id = (m.attempted now).id := backfillMarketMetadata_id hback
  rw [show (m.attempted now).id = m.id from rfl] at hid
  have hschedule := scheduled_backfill hback
  unfold foundMarket
  rw [hback, hdetect]
  dsimp only
  rw [hid]
  cases winner? with
  | none =>
    refine ⟨_, _, rfl, ?_, .noted _ db.gammaThrottle (write_keeps m') hschedule.write ?_⟩
    · split <;> split <;> split <;> rfl
    · intro winner hresolves
      obtain ⟨gamma', hfound, hwinner⟩ := hresolves.found hlookup
      obtain rfl := Option.some.inj hfound
      rw [hdetect] at hwinner
      cases hwinner
  | some winner =>
    refine ⟨_, _, rfl, ?_, .settled _ winner (write_keeps _) ?_ ?_ (fun _ => rfl)
      ⟨gamma, fallback, hlookup, detectWinningOutcome_iff.mp hdetect⟩⟩
    · split <;> split <;> rfl
    · exact fun _ => hschedule.last
    · exact fun _ => hschedule.attempts

/-- A handled turn gets to its commit, and only a 429 stops the loop after it. -/
theorem checkMarket_handled (now : Time) (db : Db) (stats : RefreshStats) (h : Handled tx m t) :
    ∃ after stats', checkMarket tx now db m t.asset t.responses stats =
      .committed after stats' (t.limited tx m) ∧
      stats'.checked = stats.checked + 1 ∧ Writes tx now m t db after := by
  unfold checkMarket Turn.limited
  cases hlookup : t.lookup tx m with
  | error e =>
    have hread : lookupClosedGammaMarket tx (m.attempted now) t.asset t.responses = .error e :=
      hlookup
    have hopen := not_resolves_of_error hlookup
    rcases h.lookup e hlookup with ⟨retryAfter, rfl⟩ | rfl
    · obtain ⟨after, stats', hfailed, hchecked, hwrites⟩ := failedCheck_writes now db
        { stats with checked := stats.checked + 1 } retryAfter hopen
      refine ⟨after, stats', ?_, hchecked, hwrites⟩
      dsimp only
      rw [hread]
      cases retryAfter <;> exact hfailed
    · obtain ⟨after, stats', hfailed, hchecked, hwrites⟩ := failedCheck_writes now db
        { stats with checked := stats.checked + 1 } none hopen
      refine ⟨after, stats', ?_, hchecked, hwrites⟩
      dsimp only
      rw [hread]
      exact hfailed
  | ok found =>
    obtain ⟨gamma?, fallback⟩ := found
    have hread : lookupClosedGammaMarket tx (m.attempted now) t.asset t.responses =
      .ok (gamma?, fallback) := hlookup
    dsimp only
    rw [hread]
    cases gamma? with
    | none =>
      refine ⟨_, _, rfl, rfl, .noted _ db.gammaThrottle (write_keeps _)
        (scheduled_attempted now m).write ?_⟩
      intro winner hresolves
      obtain ⟨gamma, hfound, -⟩ := hresolves.found hlookup
      cases hfound
    | some gamma => exact foundMarket_writes h hlookup

/-- The settlements a resolving turn leaves. -/
theorem checkMarket_resolved {db after : Db} {stats stats' : RefreshStats}
    {stop : Bool} {winner : String} (hresolves : Resolves tx m t winner)
    (h : checkMarket tx now db m t.asset t.responses stats = .committed after stats' stop) :
    after.settlements = db.settlements ++ [⟨m.id, winner⟩] := by
  obtain ⟨gamma, fallback, hlookup, hwinner⟩ := hresolves
  have hdetect := detectWinningOutcome_iff.mpr hwinner
  have hread : lookupClosedGammaMarket tx (m.attempted now) t.asset t.responses =
    .ok (some gamma, fallback) := hlookup
  unfold checkMarket at h
  dsimp only at h
  rw [hread] at h
  dsimp only at h
  unfold foundMarket at h
  cases hback : backfillMarketMetadata tx gamma (m.attempted now) with
  | error e =>
    rw [hback] at h
    cases h
  | ok r =>
    have hid : r.1.id = (m.attempted now).id := backfillMarketMetadata_id hback
    rw [show (m.attempted now).id = m.id from rfl] at hid
    rw [hback, hdetect] at h
    dsimp only at h
    rw [hid] at h
    cases h
    rfl

/-- A turn whose body gets to its commit could read what the lookup found. -/
theorem checkMarket_committed {db after : Db} {stats stats' : RefreshStats} {stop : Bool}
    (h : checkMarket tx now db m t.asset t.responses stats = .committed after stats' stop) :
    (∀ e, t.lookup tx m = .error e → (∃ retryAfter, e = .apiError retryAfter) ∨ e = .valueError) ∧
      ∀ gamma fallback, t.lookup tx m = .ok (some gamma, fallback) →
        (∃ r, backfillMarketMetadata tx gamma (m.attempted now) = .ok r) ∧
        ∃ winner, detectWinningOutcome tx gamma = .ok winner := by
  unfold checkMarket at h
  dsimp only at h
  constructor
  · intro e he
    have hread : lookupClosedGammaMarket tx (m.attempted now) t.asset t.responses = .error e := he
    rw [hread] at h
    cases e with
    | apiError retryAfter => exact .inl ⟨retryAfter, rfl⟩
    | valueError => exact .inr rfl
    | typeError | keyError | indexError | attributeError | arithmeticError | other => cases h
  · intro gamma fallback hlookup
    have hread : lookupClosedGammaMarket tx (m.attempted now) t.asset t.responses =
      .ok (some gamma, fallback) := hlookup
    rw [hread] at h
    dsimp only at h
    unfold foundMarket at h
    cases hback : backfillMarketMetadata tx gamma (m.attempted now) with
    | error e =>
      rw [hback] at h
      cases h
    | ok r =>
      rw [hback] at h
      cases hdetect : detectWinningOutcome tx gamma with
      | error e =>
        rw [hdetect] at h
        cases h
      | ok winner => exact ⟨⟨r, rfl⟩, winner, rfl⟩

/-! ## One turn and the next -/

/-- What a turn that goes through leaves of its market and of the others. -/
structure Took (tx : Text) (now : Time) (m : Market) (t : Turn) (db after : Db) : Prop where
  attempted : ∃ row, Attempted now m after row
  settled : ∀ winner, Resolves tx m t winner → after.settlement m.id = some ⟨m.id, winner⟩
  markets : ∀ id, id ≠ m.id → after.market id = db.market id
  settlements : ∀ id, id ≠ m.id → after.settlement id = db.settlement id
  unique : (after.settlements.map Settlement.marketId).Nodup

theorem settlement_concat {db : Db} {st : Settlement} {id : Nat} :
    ({ db with settlements := db.settlements ++ [st] } : Db).settlement id =
      (db.settlement id).or (if st.marketId = id then some st else none) := by
  show Keyed.find Settlement.marketId id (db.settlements ++ [st]) = _
  rw [Keyed.find_append, Keyed.find_cons]
  rfl

theorem nodup_settlement_concat {db : Db} (st : Settlement)
    (hunique : (db.settlements.map Settlement.marketId).Nodup) :
    ((db.settlements ++ [st]).map Settlement.marketId).Nodup ↔
    db.settlement st.marketId = none := by
  constructor
  · intro h
    rw [List.map_append] at h
    refine (Keyed.find_none Settlement.marketId).mpr fun other hother hsame => ?_
    exact List.disjoint_of_nodup_append h (List.mem_map_of_mem hother) (by simp [hsame])
  · intro hnone
    refine Keyed.nodup_snoc Settlement.marketId hunique fun hmem => ?_
    obtain ⟨other, hother, hsame⟩ := List.mem_map.mp hmem
    exact settlement_none hnone other hother hsame

section

variable {db : Db} {row : Market} {stats : RefreshStats}

theorem elsewhere_unique (hunique : (db.settlements.map Settlement.marketId).Nodup)
    (hnone : db.settlement m.id = none) :
    ((t.elsewhere m db).settlements.map Settlement.marketId).Nodup := by
  unfold Turn.elsewhere
  split
  · exact hunique
  · next winner _ => exact (nodup_settlement_concat ⟨m.id, winner⟩ hunique).mpr hnone

theorem elsewhere_other {id : Nat} (h : id ≠ m.id) :
    (t.elsewhere m db).settlement id = db.settlement id := by
  unfold Turn.elsewhere
  split
  · rfl
  · rw [settlement_concat, if_neg h.symm, Option.or_none]

theorem elsewhere_market (id : Nat) : (t.elsewhere m db).market id = db.market id := by
  unfold Turn.elsewhere
  split <;> rfl

/-- A handled turn goes through. -/
theorem takeMarket_handled (now : Time) (stats : RefreshStats) (h : Handled tx m t)
    (hrow : db.market m.id = some row) (hnone : db.settlement m.id = none)
    (hunique : (db.settlements.map Settlement.marketId).Nodup) :
    ∃ after stats', takeMarket tx now db m t stats = .committed after stats' (t.limited tx m) ∧
      stats'.checked = stats.checked + 1 ∧ Took tx now m t db after := by
  obtain ⟨after, stats', hcheck, hchecked, hwrites⟩ :=
    checkMarket_handled now (t.elsewhere m db) stats h
  have hrow' : (t.elsewhere m db).market m.id = some row := (elsewhere_market m.id).trans hrow
  have htook : Took tx now m t db after := by
    cases hwrites with
    | noted f throttle keeps schedule open' =>
      have hself := updateMarket_self keeps hrow'
      refine ⟨⟨f row, hself, (schedule row).last, (schedule row).attempts, .inl (schedule row).next⟩,
        fun winner hresolves => absurd hresolves (open' winner), fun id hid =>
        ?_, fun id hid => elsewhere_other hid, elsewhere_unique hunique hnone⟩
      exact (updateMarket_other keeps hid).trans (elsewhere_market id)
    | settled f winner keeps last attempts next resolves =>
      have hfirst := h.first winner resolves
      have hsame : t.elsewhere m db = db := by
        unfold Turn.elsewhere
        rw [hfirst]
      rw [hsame] at hrow' ⊢
      have hself := updateMarket_self keeps hrow'
      have hsettled : ({ updateMarket m.id f db with
        settlements := db.settlements ++ [⟨m.id, winner⟩] } : Db).settlement m.id =
          some ⟨m.id, winner⟩ := by
        show ({ db with settlements := db.settlements ++ [⟨m.id, winner⟩] } : Db).settlement m.id = _
        rw [settlement_concat, hnone, if_pos rfl, Option.none_or]
      refine ⟨⟨f row, hself, last row, attempts row, .inr ⟨next row, by rw [hsettled]; rfl⟩⟩,
        fun winner' hresolves => ?_,
        fun id hid => updateMarket_other keeps hid, fun id hid => ?_,
        (nodup_settlement_concat ⟨m.id, winner⟩ hunique).mpr hnone⟩
      · obtain rfl := resolves.unique hresolves
        exact hsettled
      · show ({ db with settlements := db.settlements ++ [⟨m.id, winner⟩] } : Db).settlement id = _
        rw [settlement_concat, if_neg fun he => hid he.symm, Option.or_none]
  refine ⟨after, stats', ?_, hchecked, htook⟩
  unfold takeMarket
  rw [hcheck]
  dsimp only
  have hafter : after.uniqueSettlements = true := decide_eq_true htook.unique
  rw [h.stored, hafter]
  rfl

/-- A turn that is not handled raises. -/
theorem takeMarket_raised (h : ¬ Handled tx m t) :
    takeMarket tx now db m t stats = .raised := by
  unfold takeMarket
  split
  · rfl
  · next after stats' stop hcheck =>
    split
    · rfl
    · next htaken =>
      exfalso
      rw [Bool.or_eq_true, not_or, Bool.not_eq_true, Bool.not_eq_true, Bool.not_eq_false'] at htaken
      obtain ⟨hstored, hafter⟩ := htaken
      obtain ⟨hlookup, hread⟩ := checkMarket_committed hcheck
      have hlists : ∀ gamma fallback, t.lookup tx m = .ok (some gamma, fallback) →
          listLike (gamma.get "outcomes") = true ∧ listLike (gamma.get "clobTokenIds") = true :=
        fun gamma fallback hfound => backfillMarketMetadata_ok_iff.mp (hread gamma fallback hfound).1
      refine h ⟨hstored, hlookup, hlists, fun gamma fallback hfound => ?_,
        fun winner hresolves => ?_⟩
      · exact (detectWinningOutcome_ok_iff (hlists gamma fallback hfound).1).mp
          (hread gamma fallback hfound).2
      · have hafterSettlements := checkMarket_resolved hresolves hcheck
        cases hfirst : t.settledFirst with
        | none => rfl
        | some other =>
          -- The row of the other process is there already, and
          -- `uq_settlements_market` refuses a second one.
          have hunique' : (after.settlements.map Settlement.marketId).Nodup :=
            of_decide_eq_true hafter
          rw [hafterSettlements] at hunique'
          unfold Turn.elsewhere at hunique'
          rw [hfirst] at hunique'
          dsimp only at hunique'
          rw [List.map_append, List.map_append] at hunique'
          exact absurd (List.mem_singleton_self m.id)
            (List.disjoint_of_nodup_append hunique'
              (List.mem_append_right _ (List.mem_singleton_self m.id)))

end

/-! ## The whole call -/

/-- What the selection says of the rows the loop still has to take. -/
structure Awaits (db : Db) (rows : List Market) : Prop where
  distinct : (rows.map Market.id).Nodup
  stored : ∀ m ∈ rows, ∃ row, db.market m.id = some row
  unsettled : ∀ m ∈ rows, db.settlement m.id = none
  unique : (db.settlements.map Settlement.marketId).Nodup

/-- A turn that goes through changes nothing the later ones await. -/
theorem Awaits.took {db after : Db} {rest : List Market} (h : Awaits db (m :: rest))
    (took : Took tx now m t db after) :
    Awaits after rest := by
  obtain ⟨hnotin, hrest⟩ := List.nodup_cons.mp h.distinct
  have hother : ∀ m' ∈ rest, m'.id ≠ m.id :=
    fun m' hm' hsame => hnotin (hsame ▸ List.mem_map_of_mem hm')
  refine ⟨hrest, fun m' hm' => ?_, fun m' hm' => ?_, took.unique⟩
  · rw [took.markets m'.id (hother m' hm')]
    exact h.stored m' (List.mem_cons_of_mem m hm')
  · rw [took.settlements m'.id (hother m' hm')]
    exact h.unsettled m' (List.mem_cons_of_mem m hm')

theorem Attempted.of_same {db after : Db} {row : Market} (h : Attempted now m db row)
    (hmarket : after.market m.id = db.market m.id)
    (hsettlement : after.settlement m.id = db.settlement m.id) : Attempted now m after row :=
  ⟨hmarket.trans h.found, h.last, h.attempts, by rw [hsettlement]; exact h.next⟩

/-- Where every market reached is handled, the loop takes them all; it leaves the others alone. -/
theorem refreshEach_handled {turns : Market → Turn} (rows : List Market) (db : Db)
    (stats : RefreshStats) (awaits : Awaits db rows)
    (h : ∀ m ∈ reached tx turns rows, Handled tx m (turns m)) :
    ∃ after stats', refreshEach tx turns now rows db stats = .returned after stats' ∧
      stats'.checked = stats.checked + (reached tx turns rows).length ∧
      (∀ m ∈ reached tx turns rows, (∃ row, Attempted now m after row) ∧
        ∀ winner, Resolves tx m (turns m) winner → after.settlement m.id = some ⟨m.id, winner⟩) ∧
      ∀ id, id ∉ rows.map Market.id → after.market id = db.market id ∧
      after.settlement id = db.settlement id := by
  induction rows generalizing db stats with
  | nil =>
    exact ⟨db, stats, rfl, rfl, fun _ hm => (List.not_mem_nil hm).elim, fun _ _ => ⟨rfl, rfl⟩⟩
  | cons m rest ih =>
    obtain ⟨row, hrow⟩ := awaits.stored m List.mem_cons_self
    have hnone := awaits.unsettled m List.mem_cons_self
    obtain ⟨mid, stats₁, htake, hchecked, took⟩ := takeMarket_handled now stats
      (h m List.mem_cons_self) hrow hnone awaits.unique
    have hframe : ∀ id, id ∉ (m :: rest).map Market.id →
        mid.market id = db.market id ∧ mid.settlement id = db.settlement id :=
      fun id hid => ⟨took.markets id (List.ne_of_not_mem_cons hid),
        took.settlements id (List.ne_of_not_mem_cons hid)⟩
    unfold refreshEach
    rw [htake]
    unfold reached at h ⊢
    cases hlimited : (turns m).limited tx m with
    | true =>
      refine ⟨mid, stats₁, rfl, hchecked, fun m' hm' => ?_, hframe⟩
      obtain rfl := List.mem_singleton.mp hm'
      exact ⟨took.attempted, took.settled⟩
    | false =>
      rw [hlimited] at h
      obtain ⟨hnotin, -⟩ := List.nodup_cons.mp awaits.distinct
      obtain ⟨after, stats', hreturn, hchecked', htaken, hkept⟩ := ih mid stats₁ (awaits.took took)
        fun m' hm' => h m' (List.mem_cons_of_mem m hm')
      refine ⟨after, stats', hreturn, ?_, fun m' hm' => ?_, fun id hid => ?_⟩
      · rw [hchecked', hchecked, List.length_cons]
        exact Nat.add_right_comm _ _ _
      · rcases List.mem_cons.mp hm' with rfl | hm'
        · obtain ⟨hmarket, hsettlement⟩ := hkept m'.id hnotin
          obtain ⟨row', hattempted⟩ := took.attempted
          exact ⟨⟨row', hattempted.of_same hmarket hsettlement⟩,
            fun winner hw => hsettlement.trans (took.settled winner hw)⟩
        · exact htaken m' hm'
      · obtain ⟨hmarket, hsettlement⟩ := hkept id (List.not_mem_of_not_mem_cons hid)
        exact ⟨hmarket.trans (hframe id hid).1, hsettlement.trans (hframe id hid).2⟩

/-- The first market that is not handled takes the call down. -/
theorem refreshEach_raised {turns : Market → Turn} (rows : List Market) (db : Db)
    (stats : RefreshStats) (awaits : Awaits db rows)
    (h : ∃ m ∈ reached tx turns rows, ¬ Handled tx m (turns m)) :
    refreshEach tx turns now rows db stats = .raised := by
  induction rows generalizing db stats with
  | nil =>
    obtain ⟨m, hm, -⟩ := h
    exact (List.not_mem_nil hm).elim
  | cons m rest ih =>
    unfold refreshEach
    by_cases hm : Handled tx m (turns m)
    · obtain ⟨row, hrow⟩ := awaits.stored m List.mem_cons_self
      obtain ⟨mid, stats₁, htake, -, took⟩ := takeMarket_handled now stats hm hrow
        (awaits.unsettled m List.mem_cons_self) awaits.unique
      rw [htake]
      obtain ⟨bad, hbad, hnot⟩ := h
      unfold reached at hbad
      rcases List.mem_cons.mp hbad with rfl | hbad
      · exact absurd hm hnot
      · cases hlimited : (turns m).limited tx m with
        | true =>
          rw [hlimited] at hbad
          exact (List.not_mem_nil hbad).elim
        | false =>
          rw [hlimited] at hbad
          exact ih mid stats₁ (awaits.took took) ⟨bad, hbad, hnot⟩
    · rw [takeMarket_raised hm]

theorem selected_awaits {nullsFirst : Bool} {db : Db} {filters : Filters} {rows : List Market}
    (h : Selected nullsFirst db filters now rows) (hmarkets : (db.markets.map Market.id).Nodup)
    (hsettlements : (db.settlements.map Settlement.marketId).Nodup) : Awaits db rows := by
  obtain ⟨l, hperm, hsub⟩ := selected_mem h
  refine ⟨selected_nodup h hmarkets, fun m hm => ⟨m, ?_⟩, fun m hm => ?_, hsettlements⟩
  · have hmem : m ∈ db.markets := List.mem_of_mem_filter (hperm.mem_iff.mp (hsub.subset hm))
    exact Keyed.find_of_mem Market.id hmarkets hmem
  · exact selected_unsettled h m.id (List.mem_map_of_mem hm)

def firstDue : Market := ⟨1, "0xbad", "", .null, none, .null, true, false, none, none, none, 0⟩

def secondDue : Market := ⟨2, "0xgood", "", .null, none, .null, true, false, none, none, none, 0⟩

def dueMarkets : Db := { Db.empty with markets := [firstDue, secondDue] }

def resolvedPayload (m : Market) (clobTokenIds : Json) : Dict :=
  [("conditionId", .str m.conditionId), ("closed", .bool true),
    ("outcomes", .arr [.str "Yes", .str "No"]),
    ("outcomePrices", .arr [.str "1", .str "0"]), ("clobTokenIds", clobTokenIds)]

def tokenPair : Json := .arr [.str "token", .str "other"]

def answeredWith (response : Except Exc Json) : Turn :=
  ⟨none, ⟨response, .ok (.arr [])⟩, none, false⟩

/-- The first request ends in a 503. -/
def firstDown (m : Market) : Turn :=
  answeredWith (if m.id = 1 then .error (.apiError none)
    else .ok (.arr [.obj (resolvedPayload m tokenPair)]))

/-- The token ids of the first market are a number. -/
def firstNumber (m : Market) : Turn :=
  answeredWith (.ok (.arr [.obj (resolvedPayload m (if m.id = 1 then .num "5" else tokenPair))]))

theorem dueMarkets_selected : Selected true dueMarkets ⟨none, none, none⟩ 0 dueMarkets.markets := by
  refine ⟨dueMarkets.markets, List.Perm.refl _, ?_, rfl⟩
  refine List.pairwise_cons.mpr ⟨fun m hm => ?_, List.pairwise_singleton _ _⟩
  obtain rfl := List.mem_singleton.mp hm
  exact (by decide : (1 : Nat) ≤ 2)

theorem secondDue_winner :
    detectWinningOutcome Text.plain (resolvedPayload secondDue tokenPair) = .ok (some "Yes") := by
  decide +kernel

theorem secondDue_found (first : Except Exc Json) :
    (answeredWith (if secondDue.id = 1 then first
      else .ok (.arr [.obj (resolvedPayload secondDue tokenPair)]))).lookup
      Text.plain secondDue = .ok (some (resolvedPayload secondDue tokenPair), false) := by
  rfl

end Polycopy
