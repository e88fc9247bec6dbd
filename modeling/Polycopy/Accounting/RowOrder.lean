import Mathlib.Algebra.BigOperators.Group.List.Basic
import Polycopy.Accounting.Service

/-!
# Accounting without the order of the rows

The legs of a market add up in any order, and its rows show one winner, so two
orders of the same rows give the same map from markets to results and the same
summary.
-/

namespace Polycopy

/-! ## Results as maps -/

/-- One result, its positions a map. -/
structure MarketAccounting.Same (a b : MarketAccounting) : Prop where
  marketKey : a.marketKey = b.marketKey
  resolved : a.resolved = b.resolved
  winningOutcome : a.winningOutcome = b.winningOutcome
  realizedPnl : a.realizedPnl = b.realizedPnl
  payout : a.payout = b.payout
  tradeCount : a.tradeCount = b.tradeCount
  positions : a.positions.Perm b.positions

theorem MarketAccounting.Same.refl (a : MarketAccounting) : a.Same a :=
  ⟨rfl, rfl, rfl, rfl, rfl, rfl, List.Perm.refl _⟩

theorem MarketAccounting.Same.trans {a b c : MarketAccounting} (h : a.Same b)
    (h' : b.Same c) : a.Same c :=
  ⟨h.1.trans h'.1, h.2.trans h'.2, h.3.trans h'.3, h.4.trans h'.4, h.5.trans h'.5,
    h.6.trans h'.6, h.7.trans h'.7⟩

def byMarket (markets : List MarketAccounting) : List (String × MarketAccounting) :=
  markets.map fun m => (m.marketKey, m)

/-- The same map from market keys to results. -/
structure SameResults (markets markets' : List MarketAccounting) : Prop where
  keys : (markets.map MarketAccounting.marketKey).Nodup
  keys' : (markets'.map MarketAccounting.marketKey).Nodup
  entries : ∀ key, Option.Rel MarketAccounting.Same (Tally.get key (byMarket markets))
    (Tally.get key (byMarket markets'))

theorem byMarket_keys (markets : List MarketAccounting) :
    (byMarket markets).map Prod.fst = markets.map MarketAccounting.marketKey := by
  unfold byMarket
  rw [List.map_map]
  rfl

namespace SameResults

variable {ms ms' ms'' : List MarketAccounting}

theorem refl (h : (ms.map MarketAccounting.marketKey).Nodup) : SameResults ms ms := by
  refine ⟨h, h, fun key => ?_⟩
  cases Tally.get key (byMarket ms) with
  | none => exact Option.Rel.none
  | some m => exact Option.Rel.some (MarketAccounting.Same.refl m)

theorem trans (h : SameResults ms ms') (h' : SameResults ms' ms'') : SameResults ms ms'' := by
  refine ⟨h.keys, h'.keys', fun key => ?_⟩
  have h1 := h.entries key
  have h2 := h'.entries key
  generalize Tally.get key (byMarket ms) = x, Tally.get key (byMarket ms') = y,
    Tally.get key (byMarket ms'') = z at h1 h2 ⊢
  cases h1 with
  | none => exact h2
  | some hab =>
    cases h2 with
    | some hbc => exact Option.Rel.some (hab.trans hbc)

/-- The markets of some of the keys. -/
theorem restrict (p : String → Bool) (h : SameResults ms ms') :
    SameResults (ms.filter fun m => p m.marketKey) (ms'.filter fun m => p m.marketKey) := by
  have hfilter : ∀ l : List MarketAccounting,
      byMarket (l.filter fun m => p m.marketKey) = (byMarket l).filter fun kv => p kv.1 := by
    intro l
    unfold byMarket
    rw [List.filter_map]
    rfl
  refine ⟨h.keys.sublist (List.filter_sublist.map _),
    h.keys'.sublist (List.filter_sublist.map _), fun key => ?_⟩
  rw [hfilter, hfilter, Tally.get_filter, Tally.get_filter]
  split
  · exact h.entries key
  · exact Option.Rel.none

theorem exists_perm (h : SameResults ms ms') :
    ∃ l, ms.Perm l ∧ List.Forall₂ MarketAccounting.Same l ms' := by
  obtain ⟨l, hperm, hrel⟩ := Tally.exists_perm_of_get (by rw [byMarket_keys]; exact h.keys)
    (by rw [byMarket_keys]; exact h.keys') h.entries
  refine ⟨l.map Prod.snd, ?_, ?_⟩
  · have hmap := hperm.map Prod.snd
    unfold byMarket at hmap
    rw [List.map_map] at hmap
    exact (List.map_id ms) ▸ hmap
  · rw [List.forall₂_map_left_iff]
    unfold byMarket at hrel
    rw [List.forall₂_map_right_iff] at hrel
    exact hrel.imp fun _ _ hxy => hxy.2

/-- What is read of the markets that pass a test, where neither sees the order of the positions. -/
theorem map_perm {β : Type} {p : MarketAccounting → Bool} {g : MarketAccounting → β}
    (hp : ∀ {a b : MarketAccounting}, a.Same b → p a = p b)
    (hg : ∀ {a b : MarketAccounting}, a.Same b → g a = g b)
    (h : SameResults ms ms') : ((ms.filter p).map g).Perm ((ms'.filter p).map g) := by
  obtain ⟨l, hperm, hrel⟩ := h.exists_perm
  refine ((hperm.filter p).map g).trans (List.Perm.of_eq ?_)
  clear hperm h
  induction hrel with
  | nil => rfl
  | cons hab _ ih =>
    rw [List.filter_cons, List.filter_cons, hp hab]
    split
    · rw [List.map_cons, List.map_cons, hg hab, ih]
    · exact ih

theorem pnl_eq {a b : MarketAccounting} (h : a.Same b) : a.pnl = b.pnl := by
  unfold MarketAccounting.pnl
  rw [h.realizedPnl]

theorem summarize_eq (h : SameResults ms ms') : summarize ms = summarize ms' := by
  have hall : (ms.map MarketAccounting.tradeCount).Perm (ms'.map MarketAccounting.tradeCount) := by
    have hperm := h.map_perm (p := fun _ => true) (fun _ => rfl) fun hab => hab.tradeCount
    simpa using hperm
  have hlen : ms.length = ms'.length := by
    rw [← List.length_map MarketAccounting.tradeCount, hall.length_eq, List.length_map]
  have hresolved := h.map_perm (p := MarketAccounting.resolved) (fun hab => hab.resolved) pnl_eq
  have hcount : (ms.filter MarketAccounting.resolved).length =
      (ms'.filter MarketAccounting.resolved).length := by
    rw [← List.length_map MarketAccounting.pnl, hresolved.length_eq, List.length_map]
  have hwon := hresolved.countP_eq fun pnl => decide (0 < pnl)
  rw [List.countP_map, List.countP_map] at hwon
  have hsum : ∀ q : ℚ → Bool,
      (((ms.filter MarketAccounting.resolved).filter fun m => q m.pnl).map
        MarketAccounting.pnl).sum =
      (((ms'.filter MarketAccounting.resolved).filter fun m => q m.pnl).map
        MarketAccounting.pnl).sum := by
    intro q
    have hq := (hresolved.filter q).sum_eq
    rw [List.filter_map, List.filter_map] at hq
    exact hq
  unfold summarize
  dsimp only
  rw [hresolved.sum_eq, hcount, hlen, hall.sum_eq, hsum fun pnl => 0 < pnl, hsum fun pnl => pnl < 0]
  exact congrArg (fun n => Summary.mk _ _ _ _ n _ _) hwon

end SameResults

/-! ## The legs of one market -/

/-- A leg added to the position of its outcome. -/
def takeLeg (o : Option MarketPosition) (leg : TradeLeg) : MarketPosition :=
  let pos := o.getD ⟨0, 0⟩
  ⟨pos.shares + leg.signed, pos.cashFlow + (leg.gross - leg.fee)⟩

theorem legPositions_eq (legs : List TradeLeg) :
    legPositions legs = Tally.fold TradeLeg.outcome takeLeg legs := rfl

theorem takeLeg_comm (o : Option MarketPosition) (a b : TradeLeg) :
    takeLeg (some (takeLeg o a)) b = takeLeg (some (takeLeg o b)) a := by
  unfold takeLeg
  simp only [Option.getD_some, MarketPosition.mk.injEq]
  constructor <;> ring

theorem legPositions_perm {legs legs' : List TradeLeg} (h : legs.Perm legs') :
    (legPositions legs).Perm (legPositions legs') := by
  rw [legPositions_eq, legPositions_eq]
  exact Tally.fold_perm takeLeg_comm h

theorem winningPayout_get (positions : List (String × MarketPosition)) (winner : String) :
    winningPayout positions winner =
      (Tally.get winner positions).elim 0 fun pos => if 0 < pos.shares then pos.shares else 0 := by
  unfold winningPayout Tally.get
  cases Keyed.find Prod.fst winner positions <;> rfl

theorem accountMarket_perm (key : String) (winner : Option String)
    {legs legs' : List TradeLeg} (h : legs.Perm legs') :
    (accountMarket key legs winner).Same (accountMarket key legs' winner) := by
  have hpos := legPositions_perm h
  cases winner with
  | none => exact ⟨rfl, rfl, rfl, rfl, rfl, h.length_eq, hpos⟩
  | some winner =>
    have hpayout : winningPayout (legPositions legs) winner =
        winningPayout (legPositions legs') winner := by
      rw [winningPayout_get, winningPayout_get, legPositions_eq, legPositions_eq,
        Tally.get_fold, Tally.get_fold, Tally.value_perm takeLeg_comm (h.filter _)]
    have hcash : ((legPositions legs).map fun kv => kv.2.cashFlow).sum =
        ((legPositions legs').map fun kv => kv.2.cashFlow).sum := (hpos.map _).sum_eq
    refine ⟨rfl, rfl, rfl, ?_, hpayout, h.length_eq, hpos⟩
    unfold accountMarket
    dsimp only
    rw [hpayout, hcash]

/-! ## The rows of a wallet -/

/-- The rows of one market show one winner. -/
def Coherent (rows : List AccountRow) : Prop :=
  ∀ r ∈ rows, ∀ r' ∈ rows, r.conditionId = r'.conditionId → r.winner = r'.winner

theorem accountRows_coherent {db : Db} (hc : db.Constrained) (selects : Trade → Bool) :
    Coherent (accountRows db selects) := by
  intro r hr r' hr' h
  unfold AccountRow.winner
  rw [rows_coherent hc hr hr' h]

theorem Coherent.perm {rows rows' : List AccountRow} (hco : Coherent rows)
    (h : rows'.Perm rows) : Coherent rows' :=
  fun r hr r' hr' => hco r (h.mem_iff.mp hr) r' (h.mem_iff.mp hr')

theorem get_winners {rows : List AccountRow} (hco : Coherent rows)
    {r : AccountRow} (hr : r ∈ rows) :
    Tally.get r.conditionId (winners rows) = some r.winner := by
  have hlast : ∀ l : List AccountRow, l ≠ [] → (∀ a ∈ l, a.winner = r.winner) →
      Tally.value (fun _ row => row.winner) l = some r.winner := by
    intro l hne hall
    obtain ⟨l, a, rfl⟩ := (List.eq_nil_or_concat' l).resolve_left hne
    rw [Tally.value_snoc, hall a (by simp)]
  unfold winners
  rw [Tally.get_fold]
  apply hlast
  · exact List.ne_nil_of_mem (List.mem_filter.mpr ⟨hr, by simp⟩)
  · intro a ha
    obtain ⟨ha, he⟩ := List.mem_filter.mp ha
    exact hco a ha r hr (by simpa using he)

theorem get_winners_none {rows : List AccountRow} {key : String}
    (h : ¬ ∃ r ∈ rows, r.conditionId = key) :
    Tally.get key (winners rows) = none := by
  unfold winners
  rw [Tally.get_fold, List.filter_eq_nil_iff.mpr]
  · rfl
  · intro r hr he
    exact h ⟨r, hr, by simpa using he⟩

theorem get_winners_perm {rows rows' : List AccountRow} (hco : Coherent rows)
    (h : rows.Perm rows') (key : String) :
    Tally.get key (winners rows) = Tally.get key (winners rows') := by
  by_cases hex : ∃ r ∈ rows, r.conditionId = key
  · obtain ⟨r, hr, rfl⟩ := hex
    rw [get_winners hco hr, get_winners (hco.perm h.symm) (h.mem_iff.mp hr)]
  · rw [get_winners_none hex, get_winners_none]
    rintro ⟨r, hr, he⟩
    exact hex ⟨r, h.mem_iff.mpr hr, he⟩

theorem accountMarket_key (key : String) (legs : List TradeLeg) (winner : Option String) :
    (accountMarket key legs winner).marketKey = key := by
  cases winner <;> rfl

theorem assemble_keys (fee : FeeColumn) (wallet : Wallet) (rows : List AccountRow) :
    (assembleWalletAccounting fee wallet rows).markets.map MarketAccounting.marketKey =
      (legsByMarket fee rows).map Prod.fst := by
  unfold assembleWalletAccounting
  rw [List.map_map]
  exact List.map_congr_left fun kv _ => accountMarket_key kv.1 kv.2 _

theorem assemble_nodup (fee : FeeColumn) (wallet : Wallet) (rows : List AccountRow) :
    ((assembleWalletAccounting fee wallet rows).markets.map MarketAccounting.marketKey).Nodup := by
  rw [assemble_keys]
  exact Tally.fold_nodup _ _ rows

theorem get_assemble (fee : FeeColumn) (wallet : Wallet) (rows : List AccountRow) (key : String) :
    Tally.get key (byMarket (assembleWalletAccounting fee wallet rows).markets) =
      (Tally.get key (legsByMarket fee rows)).map fun legs =>
        accountMarket key legs ((Tally.get key (winners rows)).getD none) := by
  unfold assembleWalletAccounting byMarket
  rw [List.map_map]
  induction legsByMarket fee rows with
  | nil => rfl
  | cons kv l ih =>
    unfold Tally.get at *
    rw [List.map_cons, Keyed.find_cons, Keyed.find_cons, Function.comp_apply, accountMarket_key]
    by_cases hk : kv.1 = key
    · subst hk
      rw [if_pos rfl, if_pos rfl]
      rfl
    · rw [if_neg hk, if_neg hk]
      exact ih

/-- Two orders of the same rows. -/
theorem assemble_perm (fee : FeeColumn) (wallet : Wallet)
    {rows rows' : List AccountRow} (hco : Coherent rows) (h : rows.Perm rows') :
    SameResults (assembleWalletAccounting fee wallet rows).markets
      (assembleWalletAccounting fee wallet rows').markets := by
  refine ⟨assemble_nodup fee wallet rows, assemble_nodup fee wallet rows', fun key => ?_⟩
  rw [get_assemble, get_assemble, get_winners_perm hco h]
  have hiff : (∃ r ∈ rows, r.conditionId = key) ↔ ∃ r ∈ rows', r.conditionId = key :=
    exists_congr fun r => and_congr_left' h.mem_iff
  unfold legsByMarket
  rw [Tally.get_groups, Tally.get_groups]
  by_cases hex : ∃ r ∈ rows, r.conditionId = key
  · rw [if_pos hex, if_pos (hiff.mp hex)]
    exact Option.Rel.some (accountMarket_perm key _ ((h.filter _).map _))
  · rw [if_neg hex, if_neg fun h' => hex (hiff.mpr h')]
    exact Option.Rel.none

theorem assemble_summary (fee : FeeColumn) (wallet : Wallet)
    {rows rows' : List AccountRow} (hco : Coherent rows) (h : rows.Perm rows') :
    (assembleWalletAccounting fee wallet rows).summary =
      (assembleWalletAccounting fee wallet rows').summary :=
  (assemble_perm fee wallet hco h).summarize_eq

end Polycopy
