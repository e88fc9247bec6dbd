import Polycopy.Accounting.Settlements

/-!
# A settlement is recorded once, and only on proof

`Proved` is what a returned object must show before its outcome is recorded;
`checkMarket_effect` says that every commit of the refresh either leaves
settlements alone or records a proved one, with the market closed in the same
commit.  Over a run of calls each market is settled at most once, for good; and
each commit is one the whole system allows of other processes.
-/

namespace Polycopy

open Py

/-! ## What a winner shows -/

/-- The winning outcome as the object states it. -/
structure Winner (tx : Text) (gamma : Dict) (winner : String) : Prop where
  closed : (gamma.get "closed").truthy = true
  outcome : ∃ raw items prices i o, pricesRaw tx gamma = .ok (some raw) ∧ raw.iter = .ok items ∧
    items.mapM Json.toDec = some prices ∧ (orEmpty (gamma.get "outcomes")).len = raw.len ∧
    (∀ p ∈ prices, ∃ q, p.value = some q ∧ 0 ≤ q ∧ q ≤ 1) ∧
    (∀ j, (∃ p, prices[j]? = some p ∧ p.value = some 1) ↔ j = i) ∧
    (orEmpty (gamma.get "outcomes")).index i = .ok o ∧ winner = o.text tx

theorem isOne_ok {p : Dec} {b : Bool} (h : isOne p = .ok b) : b = true ↔ p.value = some 1 := by
  cases p with
  | nan signaling neg payload =>
    cases signaling with
    | true => cases h
    | false =>
      obtain rfl := Except.ok.inj h
      exact ⟨fun h => (Bool.false_ne_true h).elim, fun h => by cases h⟩
  | inf neg =>
    obtain rfl := Except.ok.inj h
    exact decide_eq_true_iff
  | fin neg coef exp =>
    obtain rfl := Except.ok.inj h
    exact decide_eq_true_iff

theorem winnersFrom_mem {prices : List Dec} :
    ∀ {k : Nat} {l : List Nat}, winnersFrom k prices = .ok l →
    ∀ j, j ∈ l ↔ ∃ n p, j = k + n ∧ prices[n]? = some p ∧ p.value = some 1 := by
  induction prices with
  | nil =>
    intro k l h j
    obtain rfl := Except.ok.inj h
    simp
  | cons p rest ih =>
    intro k l h j
    obtain ⟨won, hwon, h⟩ := bind_ok h
    obtain ⟨later, hlater, h⟩ := bind_ok h
    obtain rfl := Except.ok.inj h
    have hone := isOne_ok hwon
    have hrest := ih hlater j
    have hhead : j = k ∧ p.value = some 1 ∨ j ∈ later ↔
        ∃ n q, j = k + n ∧ (p :: rest)[n]? = some q ∧ q.value = some 1 := by
      rw [hrest]
      constructor
      · rintro (⟨rfl, hp⟩ | ⟨n, q, rfl, hq, hv⟩)
        · exact ⟨0, p, rfl, rfl, hp⟩
        · exact ⟨n + 1, q, by omega, hq, hv⟩
      · rintro ⟨n, q, hj, hq, hv⟩
        cases n with
        | zero =>
          obtain rfl := Option.some.inj hq
          exact Or.inl ⟨hj, hv⟩
        | succ n => exact Or.inr ⟨n, q, by omega, hq, hv⟩
    rw [← hhead]
    cases won with
    | true =>
      have hp := hone.mp rfl
      simp [hp]
    | false =>
      have hp : ¬ p.value = some 1 := fun hp => Bool.false_ne_true (hone.mpr hp)
      simp [hp]

theorem anyOutOfRange_false {prices : List Dec} (h : anyOutOfRange prices = .ok false) :
    ∀ p ∈ prices, ∃ q, p.value = some q ∧ 0 ≤ q ∧ q ≤ 1 := by
  induction prices with
  | nil => intro p hp; cases hp
  | cons p rest ih =>
    obtain ⟨b, hb, h⟩ := bind_ok h
    cases b with
    | true => cases h
    | false =>
      intro q hq
      rcases List.mem_cons.mp hq with rfl | hq
      · cases q with
        | nan signaling neg payload => cases hb
        | inf neg => cases hb
        | fin neg coef exp =>
          refine ⟨_, rfl, ?_⟩
          have hrange := Except.ok.inj hb
          dsimp only [Dec.value] at hrange
          rw [Bool.or_eq_false_iff, decide_eq_false_iff_not,
            decide_eq_false_iff_not, not_lt, not_lt] at hrange
          exact hrange
      · exact ih h q hq

theorem winnerOf_some {tx : Text} {outcomes : Json} {prices : List Dec} {winner : String}
    (h : winnerOf tx outcomes prices = .ok (some winner)) :
    ∃ i o, (∀ p ∈ prices, ∃ q, p.value = some q ∧ 0 ≤ q ∧ q ≤ 1) ∧
      (∀ j, (∃ p, prices[j]? = some p ∧ p.value = some 1) ↔ j = i) ∧
      outcomes.index i = .ok o ∧ winner = o.text tx := by
  obtain ⟨l, hl, h⟩ := bind_ok h
  split at h
  · next i =>
    obtain ⟨bad, hbad, h⟩ := bind_ok h
    cases bad with
    | true => cases h
    | false =>
      obtain ⟨o, ho, h⟩ := bind_ok h
      refine ⟨i, o, anyOutOfRange_false hbad, fun j => ?_, ho,
        (Option.some.inj (Except.ok.inj h)).symm⟩
      rw [← List.mem_singleton, winnersFrom_mem hl]
      simp
  · cases h

theorem detectWinningOutcome_some {tx : Text} {gamma : Dict} {winner : String}
    (h : detectWinningOutcome tx gamma = .ok (some winner)) : Winner tx gamma winner := by
  unfold detectWinningOutcome at h
  split at h
  · cases h
  · next hclosed =>
    refine ⟨by simpa using hclosed, ?_⟩
    obtain ⟨raw?, hraw, h⟩ := bind_ok h
    split at h
    · cases h
    · next raw =>
      split at h
      · cases h
      · obtain ⟨n, hn, h⟩ := bind_ok h
        obtain ⟨n', hn', h⟩ := bind_ok h
        split at h
        · cases h
        · next hlen =>
          obtain ⟨items, hitems, h⟩ := bind_ok h
          split at h
          · cases h
          · next prices hprices =>
            obtain ⟨i, o, hrange, hone, ho, hw⟩ := winnerOf_some h
            refine ⟨raw, items, prices, i, o, hraw, hitems, hprices, ?_, hrange, hone, ho, hw⟩
            rw [hn, hn', not_not.mp hlen]

/-! ## What a commit of the refresh writes -/

/-- The object the lookup accepted, and the outcome it proves. -/
structure Proved (tx : Text) (m : Market) (asset : Option String) (r : Responses) (raw gamma : Dict)
    (winner : String) : Prop where
  identity : Returned tx r.byCondition m.conditionId raw gamma ∨
    (Returned tx r.byToken m.conditionId raw gamma ∧ ∃ tokenId tokenIds, asset = some tokenId ∧
      textsOf tx (gamma.get "clobTokenIds") = .ok tokenIds ∧ tokenId ∈ tokenIds)
  closed : (Dict.get raw "closed").truthy = true
  winner : Winner tx gamma winner

theorem lookup_some {tx : Text} {m : Market} {asset : Option String} {r : Responses}
    {gamma : Dict} {fallback : Bool}
    (h : lookupClosedGammaMarket tx m asset r = .ok (some gamma, fallback)) :
    ∃ raw, Returned tx r.byCondition m.conditionId raw gamma ∨
      (Returned tx r.byToken m.conditionId raw gamma ∧ ∃ tokenId tokenIds, asset = some tokenId ∧
        textsOf tx (gamma.get "clobTokenIds") = .ok tokenIds ∧ tokenId ∈ tokenIds) := by
  obtain ⟨found, hfound, h⟩ := bind_ok h
  cases found with
  | some g =>
    obtain ⟨hg, -⟩ := Prod.mk.inj (Except.ok.inj h)
    obtain rfl := Option.some.inj hg
    obtain ⟨raw, hraw⟩ := getGammaMarket_some hfound
    exact ⟨raw, Or.inl hraw⟩
  | none =>
    cases asset with
    | none => cases h
    | some tokenId =>
      obtain ⟨g, hg, h⟩ := bind_ok h
      obtain ⟨rfl, -⟩ := Prod.mk.inj (Except.ok.inj h)
      obtain ⟨⟨raw, hraw⟩, tokenIds, htexts, hmem⟩ := getGammaMarketByToken_some hg
      exact ⟨raw, Or.inr ⟨hraw, tokenId, tokenIds, rfl, htexts, hmem⟩⟩

section

-- a part of the row the back-fill does not assign
variable {β : Type} (g : Market → β) (hg : ∀ (m : Market) (question : String) (slug outcomes : Json)
  (tokens : Option (List (String × String))) (active closed : Bool), g { m with
    question := question, slug := slug, outcomes := outcomes, clobTokenIds := tokens, active :=
      active, closed := closed } = g m)

theorem assignIf_kept (new : Bool) {m' : Market} {m : Market × Bool} (h : g m' = g m.1) :
    g (assignIf new m' m).1 = g m.1 := by
  unfold assignIf
  split
  · exact h
  · rfl

include hg

theorem backfillOutcomes_kept {gamma : Dict} {m m' : Market × Bool}
    (h : backfillOutcomes gamma m = .ok m') :
    g m'.1 = g m.1 := by
  unfold backfillOutcomes at h
  dsimp only at h
  split at h
  · obtain ⟨l, -, rfl⟩ := map_ok h
    exact hg m.1 _ _ _ _ _ _
  · obtain rfl := Except.ok.inj h
    rfl

theorem backfillTokens_kept {tx : Text} {gamma : Dict} {m m' : Market × Bool}
    (h : backfillTokens tx gamma m = .ok m') : g m'.1 = g m.1 := by
  obtain ⟨tokenMap, -, h⟩ := bind_ok h
  obtain rfl := Except.ok.inj h
  exact assignIf_kept g _ (hg m.1 _ _ _ _ _ _)

/-- The back-fill leaves the row's keys and its schedule alone. -/
theorem backfillMarketMetadata_kept {tx : Text} {gamma : Dict} {m m' : Market} {changed : Bool}
    (h : backfillMarketMetadata tx gamma m = .ok (m', changed)) : g m' = g m := by
  obtain ⟨m₁, h₁, h⟩ := bind_ok h
  obtain ⟨m₂, h₂, h⟩ := bind_ok h
  calc g m' = g (backfillClosed gamma (backfillActive gamma m₂)).1 :=
        congrArg (fun x : Market × Bool => g x.1) (Except.ok.inj h).symm
    _ = g (backfillActive gamma m₂).1 := assignIf_kept g _ (hg _ _ _ _ _ _ _)
    _ = g m₂.1 := assignIf_kept g _ (hg _ _ _ _ _ _ _)
    _ = g m₁.1 := backfillTokens_kept g hg h₂
    _ = g (backfillSlug tx gamma (backfillQuestion tx gamma (m, false))).1 :=
      backfillOutcomes_kept g hg h₁
    _ = g (backfillQuestion tx gamma (m, false)).1 := assignIf_kept g _ (hg _ _ _ _ _ _ _)
    _ = g m := assignIf_kept g _ (hg _ _ _ _ _ _ _)

end

theorem backfillMarketMetadata_id {tx : Text} {gamma : Dict} {m m' : Market} {changed : Bool}
    (h : backfillMarketMetadata tx gamma m = .ok (m', changed)) : m'.id = m.id :=
  backfillMarketMetadata_kept Market.id (fun _ _ _ _ _ _ _ => rfl) h

theorem write_keeps (m : Market) : KeepsMarket m.write := fun _ => ⟨rfl, rfl⟩

inductive CheckEffect (tx : Text) (db : Db) (m : Market) (asset : Option String)
    (r : Responses) (db' : Db) : Prop
  | noted (f : Market → Market) (throttle : Option Time) (keeps : KeepsMarket f)
      (after : db' = { updateMarket m.id f db with gammaThrottle := throttle })
  | settled (f : Market → Market) (raw gamma : Dict) (winner : String) (keeps : KeepsMarket f)
      (closes : ∀ row, (f row).closed = true ∧ (f row).resolvedOutcome = some winner)
      (proved : Proved tx m asset r raw gamma winner)
      (after : db' = { updateMarket m.id f db with
        settlements := db.settlements ++ [⟨m.id, winner⟩] })

theorem failedCheck_effect {tx : Text} {now : Time} {db db' : Db}
    {m : Market} {asset : Option String} {r : Responses} {stats stats' : RefreshStats}
    {retryAfter : Option ℚ} {stop : Bool}
    (h : failedCheck now db (m.attempted now) stats retryAfter = .committed db' stats' stop) :
    CheckEffect tx db m asset r db' := by
  cases retryAfter with
  | none =>
    obtain ⟨rfl, -, -⟩ := Checked.committed.inj h
    exact .noted (m.attempted now).write db.gammaThrottle (write_keeps _) rfl
  | some seconds =>
    obtain ⟨rfl, -, -⟩ := Checked.committed.inj h
    exact .noted _ _ (write_keeps _) rfl

theorem foundMarket_effect {tx : Text} {db db' : Db} {m row : Market}
    {asset : Option String} {r : Responses} {stats stats' : RefreshStats} {gamma : Dict}
    {fallback stop : Bool} (hid : row.id = m.id)
    (hlookup : lookupClosedGammaMarket tx m asset r = .ok (some gamma, fallback))
    (h : foundMarket tx db row stats gamma fallback = .committed db' stats' stop) :
    CheckEffect tx db m asset r db' := by
  unfold foundMarket at h
  dsimp only at h
  split at h
  · cases h
  · next m' changed hback =>
    have hid' : m'.id = m.id := (backfillMarketMetadata_id hback).trans hid
    split at h
    · cases h
    · obtain ⟨rfl, -, -⟩ := Checked.committed.inj h
      rw [hid']
      exact .noted m'.write db.gammaThrottle (write_keeps _) rfl
    · next winner hwinner =>
      obtain ⟨rfl, -, -⟩ := Checked.committed.inj h
      rw [hid']
      obtain ⟨raw, hraw⟩ := lookup_some hlookup
      have hparsed : parseGammaMarket tx raw = .ok gamma :=
        hraw.elim (fun h => h.parsed) fun h => h.1.parsed
      have hproof := detectWinningOutcome_some hwinner
      have hclosed := hproof.closed
      rw [parseGammaMarket_get hparsed (by decide) (by decide) (by decide)] at hclosed
      exact .settled _ raw gamma winner (write_keeps _)
        (fun _ => ⟨rfl, rfl⟩) ⟨hraw, hclosed, hproof⟩ rfl

theorem checkMarket_effect {tx : Text} {now : Time} {db db' : Db}
    {m : Market} {asset : Option String} {r : Responses} {stats stats' : RefreshStats}
    {stop : Bool} (h : checkMarket tx now db m asset r stats = .committed db' stats' stop) :
    CheckEffect tx db m asset r db' := by
  unfold checkMarket at h
  dsimp only at h
  split at h
  · exact failedCheck_effect h
  · exact failedCheck_effect h
  · cases h
  · obtain ⟨rfl, -, -⟩ := Checked.committed.inj h
    exact .noted (m.attempted now).write db.gammaThrottle (write_keeps _) rfl
  · next gamma fallback hlookup =>
    -- the counters of the attempt are no part of what the lookup reads
    have hlookup' : lookupClosedGammaMarket tx m asset r = .ok (some gamma, fallback) := hlookup
    have hid : (m.attempted now).id = m.id := rfl
    exact foundMarket_effect hid hlookup' h

/-! ## Runs of calls -/

/-- The market of a settlement is closed with its outcome. -/
def ClosedWith (db : Db) (st : Settlement) : Prop :=
  ∃ m, db.market st.marketId = some m ∧ m.closed = true ∧ m.resolvedOutcome = some st.winningOutcome

structure RefreshOk (s : Refresher) : Prop where
  marketIds : (s.db.markets.map Market.id).Nodup
  once : (s.db.settlements.map Settlement.marketId).Nodup
  closed : ∀ st ∈ s.db.settlements, ClosedWith s.db st
  todo : ∀ j, s.job = some j → j.todo.Nodup ∧ ∀ id ∈ j.todo, s.db.settlement id = none

theorem refreshOk_init : RefreshOk Refresher.init where
  marketIds := List.nodup_nil
  once := List.nodup_nil
  closed _ h := (List.not_mem_nil h).elim
  todo _ h := by cases h

theorem selected_mem {nullsFirst : Bool} {db : Db} {filters : Filters}
    {now : Time} {rows : List Market} (h : Selected nullsFirst db filters now rows) :
    ∃ l : List Market, l.Perm (refreshable db filters now) ∧ rows.Sublist l := by
  obtain ⟨l, hp, -, rfl⟩ := h
  refine ⟨l, hp, ?_⟩
  split
  · exact List.Sublist.refl l
  · exact List.take_sublist _ l

theorem refreshable_unsettled {db : Db} {filters : Filters} {now : Time} {m : Market}
    (h : m ∈ refreshable db filters now) : db.settlement m.id = none := by
  have hcond := (List.mem_filter.mp h).2
  simp only [Bool.and_eq_true] at hcond
  exact Option.isNone_iff_eq_none.mp hcond.1.1.1

theorem selected_unsettled {nullsFirst : Bool} {db : Db} {filters : Filters}
    {now : Time} {rows : List Market} (h : Selected nullsFirst db filters now rows) :
    ∀ id ∈ rows.map Market.id, db.settlement id = none := by
  intro id hid
  obtain ⟨m, hm, rfl⟩ := List.mem_map.mp hid
  obtain ⟨l, hp, hsub⟩ := selected_mem h
  exact refreshable_unsettled (hp.mem_iff.mp (hsub.subset hm))

theorem selected_nodup {nullsFirst : Bool} {db : Db} {filters : Filters}
    {now : Time} {rows : List Market} (h : Selected nullsFirst db filters now rows)
    (hn : (db.markets.map Market.id).Nodup) :
    (rows.map Market.id).Nodup := by
  obtain ⟨l, hp, hsub⟩ := selected_mem h
  have hl : (l.map Market.id).Nodup :=
    ((hp.map _).nodup_iff).mpr (hn.sublist (List.filter_sublist.map Market.id))
  exact hl.sublist (hsub.map Market.id)

theorem updateMarket_other {db : Db} {id other : Nat} {f : Market → Market}
    (hf : KeepsMarket f) (h : other ≠ id) :
    (updateMarket id f db).market other = db.market other := by
  show Keyed.find Market.id other (Keyed.update Market.id id f db.markets) = _
  rw [Keyed.find_update Market.id fun m => (hf m).1]
  show Option.map _ (db.market other) = db.market other
  cases hm : db.market other with
  | none => rfl
  | some m =>
    have hid : ¬ m.id = id := fun he => h ((Keyed.find_some Market.id hm).2.symm.trans he)
    rw [Option.map_some, if_neg hid]

theorem updateMarket_self {db : Db} {id : Nat} {f : Market → Market}
    {m : Market} (hf : KeepsMarket f)
    (h : db.market id = some m) : (updateMarket id f db).market id = some (f m) := by
  show Keyed.find Market.id id (Keyed.update Market.id id f db.markets) = _
  rw [Keyed.find_update Market.id fun m => (hf m).1]
  show Option.map _ (db.market id) = _
  rw [h, Option.map_some, if_pos (Keyed.find_some Market.id h).2]

theorem settlement_none {db : Db} {id : Nat} (h : db.settlement id = none) :
    ∀ st ∈ db.settlements, st.marketId ≠ id :=
  (Keyed.find_none Settlement.marketId).mp h

/-- A commit of the refresh keeps what is settled and settles at most the market checked. -/
theorem CheckEffect.ok {tx : Text} {db db' : Db} {m : Market}
    {asset : Option String} {r : Responses} {id : Nat} (h : CheckEffect tx db m asset r db')
    (row : db.market id = some m) (unsettled : db.settlement id = none)
    (hids : (db.markets.map Market.id).Nodup)
    (once : (db.settlements.map Settlement.marketId).Nodup)
    (closed : ∀ st ∈ db.settlements, ClosedWith db st) :
    (db'.markets.map Market.id).Nodup ∧ (db'.settlements.map Settlement.marketId).Nodup ∧
      (∀ st ∈ db'.settlements, ClosedWith db' st) ∧ (∀ st ∈ db.settlements, st ∈ db'.settlements) ∧
      ∀ other, other ≠ id → db.settlement other = none → db'.settlement other = none := by
  have hid : m.id = id := (Keyed.find_some Market.id row).2
  have hne := settlement_none unsettled
  have hmarkets : ∀ f : Market → Market, KeepsMarket f →
      ((Keyed.update Market.id m.id f db.markets).map Market.id).Nodup := by
    intro f hf
    rw [Keyed.map_update Market.id Market.id fun m => (hf m).1]
    exact hids
  have hold : ∀ f : Market → Market, KeepsMarket f → ∀ st ∈ db.settlements,
      ClosedWith (updateMarket m.id f db) st := by
    intro f hf st hst
    obtain ⟨m', hm', hclosed⟩ := closed st hst
    refine ⟨m', ?_, hclosed⟩
    rw [hid, updateMarket_other hf (hne st hst)]
    exact hm'
  cases h with
  | noted f throttle keeps after =>
    subst after
    exact ⟨hmarkets f keeps, once, hold f keeps, fun _ h => h, fun _ _ h => h⟩
  | settled f raw gamma winner keeps closes proved after =>
    subst after
    refine ⟨hmarkets f keeps, ?_, ?_, fun st h => List.mem_append_left _ h, ?_⟩
    · refine Keyed.nodup_snoc Settlement.marketId once fun hm => ?_
      obtain ⟨st, hst, he⟩ := List.mem_map.mp hm
      exact hne st hst (he.trans hid)
    · intro st hst
      rcases List.mem_append.mp hst with hst | hst
      · exact hold f keeps st hst
      · obtain rfl := List.mem_singleton.mp hst
        refine ⟨f m, ?_, closes m⟩
        show (updateMarket m.id f db).market m.id = some (f m)
        rw [hid]
        exact updateMarket_self keeps row
    · intro other hother hnone
      show Keyed.find Settlement.marketId other (db.settlements ++ [_]) = none
      rw [Keyed.find_append, Keyed.find_cons]
      change Keyed.find Settlement.marketId other db.settlements = none at hnone
      have hne' : ¬ m.id = other := fun he => hother (he.symm.trans hid)
      rw [hnone, if_neg hne']
      rfl

theorem RefreshOk.step {tx : Text} {nullsFirst : Bool} {s t : Refresher}
    {e : RefreshEvent} (ok : RefreshOk s) (h : RefreshStep tx nullsFirst s e t) :
    RefreshOk t ∧ ∀ st ∈ s.db.settlements, st ∈ t.db.settlements := by
  cases h with
  | ingestTrade tr => exact ⟨⟨ok.marketIds, ok.once, ok.closed, ok.todo⟩, fun _ h => h⟩
  | ingestMarket m id key =>
    refine ⟨⟨?_, ok.once, ?_, ok.todo⟩, fun _ h => h⟩
    · refine Keyed.nodup_snoc Market.id ok.marketIds fun hm => ?_
      obtain ⟨m', hm', he⟩ := List.mem_map.mp hm
      exact id m' hm' he
    · intro st hst
      obtain ⟨m', hm', hclosed⟩ := ok.closed st hst
      refine ⟨m', ?_, hclosed⟩
      show Keyed.find Market.id st.marketId (s.db.markets ++ [m]) = some m'
      change Keyed.find Market.id st.marketId s.db.markets = some m' at hm'
      rw [Keyed.find_append, hm']
      rfl
  | returned filters now idle h => exact ⟨ok, fun _ h => h⟩
  | call filters now rows idle ids free query =>
    refine ⟨⟨ok.marketIds, ok.once, ok.closed, ?_⟩, fun _ h => h⟩
    rintro j hj
    obtain rfl := Option.some.inj hj
    exact ⟨selected_nodup query ok.marketIds, selected_unsettled query⟩
  | check j id rest m asset r db stats stop job head row traded commit =>
    obtain ⟨hnodup, hunsettled⟩ := ok.todo j job
    rw [head] at hnodup hunsettled
    obtain ⟨hnotin, hrest⟩ := List.nodup_cons.mp hnodup
    obtain ⟨h1, h2, h3, h4, h5⟩ :=
      (checkMarket_effect commit).ok row (hunsettled id List.mem_cons_self)
      ok.marketIds ok.once ok.closed
    refine ⟨⟨h1, h2, h3, ?_⟩, h4⟩
    intro j' hj'
    cases stop with
    | true => cases hj'
    | false =>
      obtain rfl := Option.some.inj hj'
      refine ⟨hrest, fun other hother => h5 other ?_
        (hunsettled other (List.mem_cons_of_mem _ hother))⟩
      rintro rfl
      exact hnotin hother
  | ended j job done =>
    exact ⟨⟨ok.marketIds, ok.once, ok.closed, fun _ h => by cases h⟩, fun _ h => h⟩
  | abort => exact ⟨⟨ok.marketIds, ok.once, ok.closed, fun _ h => by cases h⟩, fun _ h => h⟩

/-- A settlement row comes from a check of its market that had its proof. -/
theorem RefreshStep.settles {tx : Text} {nullsFirst : Bool} {s t : Refresher}
    {e : RefreshEvent} {st : Settlement} (h : RefreshStep tx nullsFirst s e t)
    (hnew : st ∉ s.db.settlements) (hst : st ∈ t.db.settlements) :
    ∃ asset r m raw gamma, e = .check st.marketId asset r ∧ s.db.market st.marketId = some m ∧
      AssetFound s.db st.marketId asset ∧ Proved tx m asset r raw gamma st.winningOutcome := by
  cases h with
  | check j id rest m asset r db stats stop job head row traded commit =>
    cases checkMarket_effect commit with
    | noted f throttle keeps after =>
      subst after
      exact absurd hst hnew
    | settled f raw gamma winner keeps closes proved after =>
      subst after
      rcases List.mem_append.mp hst with hst | hst
      · exact absurd hst hnew
      · obtain rfl := List.mem_singleton.mp hst
        have hid : m.id = id := (Keyed.find_some Market.id row).2
        subst hid
        exact ⟨asset, r, m, raw, gamma, rfl, row, traded, proved⟩
  | ingestTrade | ingestMarket | returned | call | ended | abort => exact absurd hst hnew

/-- A settled market: one row, the market closed with its outcome, never looked up again. -/
structure SettledFor (nullsFirst : Bool) (st : Settlement) (s : Refresher) : Prop where
  row : st ∈ s.db.settlements
  only : ∀ st' ∈ s.db.settlements, st'.marketId = st.marketId → st' = st
  closed : ClosedWith s.db st
  unselected : ∀ filters now rows, Selected nullsFirst s.db filters now rows →
    st.marketId ∉ rows.map Market.id
  unchecked : ∀ j, s.job = some j → st.marketId ∉ j.todo

theorem RefreshOk.settledFor {nullsFirst : Bool} {s : Refresher}
    {st : Settlement} (ok : RefreshOk s)
    (hst : st ∈ s.db.settlements) : SettledFor nullsFirst st s where
  row := hst
  only _ hst' he := Keyed.eq_of_key Settlement.marketId ok.once hst' hst he
  closed := ok.closed st hst
  unselected _ _ _ hsel hm := settlement_none (selected_unsettled hsel _ hm) st hst rfl
  unchecked j hj hm := settlement_none ((ok.todo j hj).2 _ hm) st hst rfl

/-- Every settlement of a run of calls was proved by an object returned for its market, and from
then on, whatever the run does, it is the market's only one, stands, and is not looked up again. -/
theorem settlement_sound (tx : Text) (nullsFirst : Bool)
    (tr : List (RefreshEvent × Refresher)) (s : Refresher)
    (h : Runs.Run (RefreshStep tx nullsFirst) Refresher.init tr s) : ∀ st ∈ s.db.settlements,
      (∃ pre asset r v post u m raw gamma, tr = pre ++ (.check st.marketId asset r, v) :: post ∧
        Runs.Run (RefreshStep tx nullsFirst) Refresher.init pre u ∧
        u.db.market st.marketId = some m ∧
        AssetFound u.db st.marketId asset ∧ Proved tx m asset r raw gamma st.winningOutcome) ∧
      ∀ tr' t, Runs.Run (RefreshStep tx nullsFirst) s tr' t → SettledFor nullsFirst st t := by
  intro st hst
  have hok : RefreshOk s := h.inv RefreshOk (fun _ _ _ ok hs => (ok.step hs).1) refreshOk_init
  refine ⟨?_, fun tr' t hr => ?_⟩
  · obtain ⟨pre, e, v, post, u, htr, hpre, hs, -, hnew, hv, -⟩ :=
      h.rise (fun s => st ∈ s.db.settlements) List.not_mem_nil hst
    obtain ⟨asset, r, m, raw, gamma, rfl, hrow, hasset, hproved⟩ := hs.settles hnew hv
    exact ⟨pre, asset, r, v, post, u, m, raw, gamma, htr, hpre, hrow, hasset, hproved⟩
  · obtain ⟨hok', hst'⟩ := hr.inv (fun s => RefreshOk s ∧ st ∈ s.db.settlements)
      (fun _ _ _ ok hs => ⟨(ok.1.step hs).1, (ok.1.step hs).2 st ok.2⟩) ⟨hok, hst⟩
    exact hok'.settledFor hst'

/-! ## A refresh in the whole system -/

/-- A commit of the refresh is one or two commits the system allows of other processes. -/
theorem CheckEffect.elsewhere {tx : Text} {cfg : Settings} {now : Time} {db db' : Db} {m : Market}
    {asset : Option String} {r : Responses} {id : Nat} (h : CheckEffect tx db m asset r db')
    (row : db.market id = some m) (unsettled : db.settlement id = none) :
    Relation.ReflTransGen (fun d d' => ∃ e, Elsewhere tx cfg now d e d') db db' := by
  have hid : m.id = id := (Keyed.find_some Market.id row).2
  subst hid
  cases h with
  | noted f throttle keeps after =>
    subst after
    refine .tail (.single ⟨_, .backfill db m.id f keeps unsettled⟩) ⟨_, .throttle _ throttle⟩
  | settled f raw gamma winner keeps closes proved after =>
    subst after
    refine .single ⟨_, .resolve db m.id winner f keeps (fun row => (closes row).1) ?_ unsettled⟩
    rw [row]
    rfl

theorem RefreshStep.elsewhere {tx : Text} {nullsFirst : Bool} {cfg : Settings}
    {now : Time} {s t : Refresher} {id : Nat} {asset : Option String} {r : Responses}
    (ok : RefreshOk s) (h : RefreshStep tx nullsFirst s (.check id asset r) t) :
    Relation.ReflTransGen (fun d d' => ∃ e, Elsewhere tx cfg now d e d') s.db t.db := by
  cases h with
  | check j _ rest m _ _ db stats stop job head row traded commit =>
    have hunsettled := (ok.todo j job).2 id (by rw [head]; exact List.mem_cons_self)
    exact (checkMarket_effect commit).elsewhere row hunsettled

/-! ## A market found by its token -/

/-- The next commit of a call under way. -/
def Refresher.checked (tx : Text) (s : Refresher) (id : Nat)
    (asset : Option String) (r : Responses) :
    Option Refresher :=
  match s.job, s.db.market id with
  | some j, some m =>
    if j.todo.head? = some id then match checkMarket tx j.now s.db m asset r j.stats with
      | .committed db stats stop =>
        some ⟨db, if stop then none else some { j with todo := j.todo.tail, stats := stats }⟩
      | .raised => none
    else none
  | _, _ => none

theorem checked_step {tx : Text} {nullsFirst : Bool} {s t : Refresher}
    {id : Nat} {asset : Option String} {r : Responses} (h : s.checked tx id asset r = some t)
    (traded : AssetFound s.db id asset) :
    RefreshStep tx nullsFirst s (.check id asset r) t := by
  unfold Refresher.checked at h
  split at h
  · next j m hj hm =>
    split at h
    · next hhead =>
      obtain ⟨rest, hrest⟩ := List.head?_eq_some_iff.mp hhead
      split at h
      · next db stats stop hcheck =>
        obtain rfl := Option.some.inj h
        rw [hrest]
        exact .check j id rest m asset r db stats stop hj hrest hm traded hcheck
      · cases h
    · cases h
  · cases h

/-- The decoder on the two texts of the answer below. -/
def answerText : Text := { Text.plain with
  loads := fun s => if s = "[\"Yes\", \"No\"]" then .ok (.arr [.str "Yes", .str "No"])
    else if s = "[\"1\", \"0\"]" then .ok (.arr [.str "1", .str "0"]) else .error .valueError }

/-- Nothing under the condition id; a resolved market under the token. -/
def answers : Responses where
  byCondition := .ok (.arr [])
  byToken := .ok (.arr [.obj [("conditionId", .str "0xm"), ("closed", .bool true),
    ("outcomes", .str "[\"Yes\", \"No\"]"), ("outcomePrices", .str "[\"1\", \"0\"]"),
    ("clobTokenIds", .arr [.str "token", .str "other"])]])

def tradedMarket : Db := { Db.empty with
  markets := [⟨1, "0xm", "", .null, none, .null, true, false, none, none, none, 0⟩]
  trades := [⟨1, "a", 1, 1, some "token", .buy, "Yes", 20, 1 / 2, 0, 0⟩] }

def calledRefresh : Refresher := ⟨tradedMarket, some ⟨0, [1], .zero⟩⟩

def refreshed : Refresher :=
  (calledRefresh.checked answerText 1 (some "token") answers).getD calledRefresh

theorem refreshed_run :
    ∃ tr, Runs.Run (RefreshStep answerText true) Refresher.init tr refreshed := by
  have h1 : RefreshStep answerText true Refresher.init .ingestMarket
      ⟨{ Db.empty with markets := tradedMarket.markets }, none⟩ :=
    .ingestMarket _ (fun _ h => (List.not_mem_nil h).elim) fun _ h => (List.not_mem_nil h).elim
  have h2 : RefreshStep answerText true
      ⟨{ Db.empty with markets := tradedMarket.markets }, none⟩ .ingestTrade
      ⟨tradedMarket, none⟩ := .ingestTrade _
  have h3 : RefreshStep answerText true ⟨tradedMarket, none⟩
      (.call ⟨none, none, none⟩ 0) calledRefresh :=
    .call ⟨none, none, none⟩ 0 tradedMarket.markets rfl (by decide) rfl
      ⟨tradedMarket.markets, List.Perm.refl _, List.pairwise_singleton _ _, rfl⟩
  have hsome : (calledRefresh.checked answerText 1 (some "token") answers).isSome = true := by
    decide +kernel
  have h4 : RefreshStep answerText true calledRefresh
      (.check 1 (some "token") answers) refreshed := by
    obtain ⟨t, ht⟩ := Option.isSome_iff_exists.mp hsome
    unfold refreshed
    rw [ht]
    exact checked_step ht (show "token" ∈ tradedAssetIds tradedMarket 1 by decide)
  exact ⟨_, (((Runs.Run.single h1).snoc _ _ h2).snoc _ _ h3).snoc _ _ h4⟩

theorem settlement_sound_refreshed : refreshed.db.settlements = [⟨1, "Yes"⟩] ∧
    ∀ st ∈ refreshed.db.settlements, SettledFor true st refreshed := by
  refine ⟨by decide +kernel, fun st hst => ?_⟩
  obtain ⟨tr, hrun⟩ := refreshed_run
  exact (settlement_sound answerText true tr refreshed hrun st hst).2 [] _ .nil

end Polycopy
