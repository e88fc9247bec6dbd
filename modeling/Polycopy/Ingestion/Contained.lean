import Polycopy.Ingestion.Malformed

/-!
# What a bad row can stop

`ingest_approved_wallet` reads a page three times: for its keys, to store it, and
for the timestamps its windows run by.  `afterLatest` is what follows the newest
page up to the next commit and `afterPage` what follows a page of the recovery
window, each from the code of `CatchUp` (`afterLatest_next`, `afterPage_next`).

`malformed_contained_iff` says exactly which pages let every well-formed row in and
let the cycle go on: for `ingest_trade_rows` the `Clean` ones, for the two places of
`ingest_approved_wallet` those on which, besides, the timestamps that are read there
are integers.
-/

namespace Polycopy

open Py

/-! ## Timestamps -/

theorem mapM_ok {α β : Type} {f : α → Except Exc β} : ∀ {l : List α} {r : List β},
    l.mapM f = .ok r ↔ List.Forall₂ (fun a b => f a = .ok b) l r := by
  intro l
  induction l with
  | nil =>
    intro r
    constructor
    · intro h
      obtain rfl := Except.ok.inj h
      exact .nil
    · intro h
      cases h
      rfl
  | cons a l ih =>
    intro r
    rw [List.mapM_cons]
    constructor
    · intro h
      obtain ⟨b, hb, h⟩ := bind_ok h
      obtain ⟨r', hr', h⟩ := bind_ok h
      obtain rfl := Except.ok.inj h
      exact .cons hb (ih.mp hr')
    · intro h
      cases h with
      | cons hb hr =>
        rw [hb, ih.mpr hr]
        rfl

theorem mapM_ok_iff {α β : Type} {f : α → Except Exc β} {l : List α} :
    (∃ r, l.mapM f = .ok r) ↔ ∀ a ∈ l, ∃ b, f a = .ok b := by
  constructor
  · rintro ⟨r, h⟩
    have h2 := mapM_ok.mp h
    clear h
    induction h2 with
    | nil => exact fun a ha => (List.not_mem_nil ha).elim
    | cons hb _ ih => exact List.forall_mem_cons.mpr ⟨⟨_, hb⟩, ih⟩
  · intro h
    induction l with
    | nil => exact ⟨[], rfl⟩
    | cons a l ih =>
      obtain ⟨⟨b, hb⟩, hl⟩ := List.forall_mem_cons.mp h
      obtain ⟨r, hr⟩ := ih hl
      exact ⟨b :: r, mapM_ok.mpr (.cons hb (mapM_ok.mp hr))⟩

/-- `int(row.get("timestamp", 0))` succeeds on every row. -/
def WindowStamps (rows : List Json) : Prop := ∀ raw ∈ rows, ∃ n, timestampOf raw = .ok n

/-- `int(row["timestamp"])` succeeds on every row whose timestamp is a number. -/
def NumberStamps (rows : List Json) : Prop :=
  ∀ raw ∈ rows, ∀ j, raw.get "timestamp" = .ok j → j.isNumber = true → ∃ n, j.toInt = .ok n

theorem newestTimestamp_ok_iff {rows : List Json} (now : Time) :
    (∃ e, newestTimestamp rows now = .ok e) ↔ WindowStamps rows := by
  unfold WindowStamps
  rw [← mapM_ok_iff]
  unfold newestTimestamp
  constructor
  · rintro ⟨e, h⟩
    obtain ⟨stamps, hstamps, -⟩ := bind_ok h
    exact ⟨stamps, hstamps⟩
  · rintro ⟨stamps, h⟩
    rw [h]
    exact ⟨_, rfl⟩

theorem times_ok_iff {rows : List Json} (hobjects : ∀ raw ∈ rows, isObject raw = true) :
    (∃ ts, times rows = .ok ts) ↔ NumberStamps rows := by
  obtain ⟨stamps, hstamps⟩ :=
    (mapM_ok_iff (f := fun row : Json => row.get "timestamp")).mpr fun raw hraw =>
    get_ok_iff.mpr (hobjects raw hraw)
  have hmem : (∀ j ∈ stamps, j.isNumber = true → ∃ n, j.toInt = .ok n) ↔ NumberStamps rows := by
    unfold NumberStamps
    have hall := mapM_ok.mp hstamps
    clear hstamps hobjects
    induction hall with
    | nil =>
      exact iff_of_true (fun j h => (List.not_mem_nil h).elim)
        (fun raw h => (List.not_mem_nil h).elim)
    | cons hb _ ih =>
      rw [List.forall_mem_cons, List.forall_mem_cons]
      refine and_congr ?_ ih
      constructor
      · intro h j hj
        obtain rfl := Except.ok.inj (hb.symm.trans hj)
        exact h
      · intro h
        exact h _ hb
  rw [← hmem]
  unfold times
  simp only [hstamps, bind, Except.bind]
  rw [mapM_ok_iff]
  constructor
  · intro h j hj hn
    exact h j (List.mem_filter.mpr ⟨hj, hn⟩)
  · intro h j hj
    exact h j (List.mem_filter.mp hj).1 (List.mem_filter.mp hj).2

/-! ## The newest page -/

/-- The variables of the cycle once the newest page has arrived. -/
def Baseline.cycle (b : Baseline) (tx : Text) (latest : List Json)
    (latestKeys : List String) : Cycle where
  toBaseline := b
  latest := latest
  latestKeys := latestKeys
  latestAnchor := (firstKey tx latest).or b.anchor
  headAnchor := b.headAnchor
  incomplete := b.reopened
  window := .ofPrior b.prior
  result := ⟨0, 0⟩

theorem gotLatest_eq (tx : Text) (b : Baseline) (latest : List Json) :
    gotLatest tx b latest = (keys tx latest).map fun latestKeys =>
    .storeLatest (b.cycle tx latest latestKeys) := by
  unfold gotLatest
  cases keys tx latest <;> rfl

def afterLatest (tx : Text) (u : Upstream) (walletId : Nat) (b : Baseline)
    (latest : List Json) (db : Db) :
    Except Exc (Ingested × CatchUpPc) := do
  let latestKeys ← keys tx latest
  let r ← ingestPage tx u true walletId latest db
  let pc ← storedLatest ((b.cycle tx latest latestKeys).count r) u.now
  return (r, pc)

def afterPage (tx : Text) (u : Upstream) (walletId : Nat) (c : Cycle) (left offset : Nat)
    (rows : List Json) (db : Db) :
    Except Exc (Ingested × CatchUpPc) := do
  let pageKeys ← keys tx rows
  let r ← ingestPage tx u true walletId rows db
  let pc ← storedPage (c.count r) left offset rows pageKeys u.now
  return (r, pc)

/-- A new window opens: none is open and the anchor is not on the page. -/
def Baseline.opens (b : Baseline) (tx : Text) (latest : List Json) : Bool :=
  !b.reopened && isSet b.anchor && !among b.anchor (pageKeys tx latest)

/-- The window is connected and the next one starts from the head, which the newest
page has left behind. -/
def Cycle.reopens (c : Cycle) (tx : Text) (rows : List Json) : Bool :=
  among c.anchor (pageKeys tx rows) && isSet c.headAnchor && !among c.headAnchor c.latestKeys

theorem storedLatest_ok_iff {c : Cycle} (now : Time) : (∃ pc, storedLatest c now = .ok pc) ↔
    ((!c.incomplete && isSet c.anchor && !among c.anchor c.latestKeys) = true →
      WindowStamps c.latest) := by
  rw [← newestTimestamp_ok_iff now]
  unfold storedLatest
  rw [c.moveHead_eq]
  dsimp only
  split
  · next hopen =>
    rw [forall_prop_of_true hopen]
    constructor
    · rintro ⟨pc, h⟩
      obtain ⟨e, he, -⟩ := bind_ok h
      exact ⟨e, he⟩
    · rintro ⟨e, he⟩
      rw [he]
      exact ⟨_, rfl⟩
  · next hopen =>
    refine iff_of_true ?_ (fun h => absurd h hopen)
    split
    · exact ⟨_, rfl⟩
    · split <;> exact ⟨_, rfl⟩

theorem storedPage_ok_iff {c : Cycle} (left offset : Nat)
    {rows : List Json} {tx : Text} (now : Time) (hobjects : ∀ raw ∈ rows, isObject raw = true) :
    (∃ pc, storedPage c left offset rows (pageKeys tx rows) now = .ok pc) ↔
      NumberStamps rows ∧ (c.reopens tx rows = true → WindowStamps c.latest) := by
  rw [← times_ok_iff hobjects, ← newestTimestamp_ok_iff now]
  unfold storedPage Cycle.reopens
  constructor
  · rintro ⟨pc, h⟩
    obtain ⟨ts, hts, h⟩ := bind_ok h
    refine ⟨⟨ts, hts⟩, fun hre => ?_⟩
    rw [Bool.and_assoc, Bool.and_eq_true] at hre
    dsimp only at h
    rw [if_pos hre.1, if_pos hre.2] at h
    obtain ⟨e, he, -⟩ := bind_ok h
    exact ⟨e, he⟩
  · rintro ⟨⟨ts, hts⟩, hre⟩
    rw [hts]
    simp only [bind, Except.bind]
    split
    · next hanchor =>
      split
      · next hhead =>
        obtain ⟨e, he⟩ := hre (by rw [Bool.and_assoc, Bool.and_eq_true]; exact ⟨hanchor, hhead⟩)
        rw [he]
        exact ⟨_, rfl⟩
      · exact ⟨_, rfl⟩
    · split <;> exact ⟨_, rfl⟩

/-! ## The steps of the cycle -/

theorem ingestPage_ingest {tx : Text} {u : Upstream} {fetchMetadata : Bool}
    {walletId : Nat} {rows : List Json} {db : Db} {r : Ingested}
    (h : ingestPage tx u fetchMetadata walletId rows db = .ok r) :
    ingestTradeRows tx (u.page tx rows) fetchMetadata walletId rows db = .ok r := by
  obtain ⟨⟨keyed, quarantined⟩, -, h⟩ := bind_ok h
  dsimp only at h
  split at h
  · exact h
  · cases h

/-- The cycle gets from the response to where `afterLatest` says, in two steps. -/
theorem afterLatest_next {tx : Text} {u : Upstream} {wallet : Wallet} {s : CatchUp}
    {b : Baseline} {latest : List Json} {r : Ingested} {pc : CatchUpPc}
    (here : s.pc = .awaitLatest b)
    (h : afterLatest tx u wallet.id b latest s.db = .ok (r, pc)) :
    ∃ s₁ s₂, s.next tx wallet (.fetch (.ok latest)) = some s₁ ∧
      s₁.next tx wallet (.store (u.page tx latest) u.now) = some s₂ ∧
      s₂.db = r.db ∧ s₂.pc = pc := by
  obtain ⟨latestKeys, hkeys, h⟩ := bind_ok h
  obtain ⟨r', hr, h⟩ := bind_ok h
  obtain ⟨pc', hpc, h⟩ := bind_ok h
  obtain ⟨rfl, rfl⟩ := Prod.mk.inj (Except.ok.inj h)
  refine ⟨{ s with pc := .storeLatest (b.cycle tx latest latestKeys) }, _, ?_, rfl, ?_⟩
  · simp only [CatchUp.next, here]
    show some (s.goto (gotLatest tx b latest)) = _
    rw [gotLatest_eq, hkeys]
    rfl
  · simp only [CatchUp.store, Baseline.cycle, ingestPage_ingest hr]
    change storedLatest ((b.cycle tx latest latestKeys).count r') u.now = _ at hpc
    unfold Baseline.cycle at hpc
    rw [hpc]
    exact ⟨rfl, rfl⟩

theorem afterPage_next {tx : Text} {u : Upstream} {wallet : Wallet} {s : CatchUp} {c : Cycle}
    {left offset : Nat} {e : Int} {rows : List Json} {r : Ingested} {pc : CatchUpPc}
    (here : s.pc = .awaitPage c left offset e)
    (h : afterPage tx u wallet.id c left offset rows s.db = .ok (r, pc)) :
    ∃ s₁ s₂, s.next tx wallet (.fetch (.ok rows)) = some s₁ ∧
      s₁.next tx wallet (.store (u.page tx rows) u.now) = some s₂ ∧ s₂.db = r.db ∧ s₂.pc = pc := by
  obtain ⟨pageKeys, hkeys, h⟩ := bind_ok h
  obtain ⟨r', hr, h⟩ := bind_ok h
  obtain ⟨pc', hpc, h⟩ := bind_ok h
  obtain ⟨rfl, rfl⟩ := Prod.mk.inj (Except.ok.inj h)
  refine ⟨{ s with pc := .storePage c left offset rows pageKeys }, _, ?_, rfl, ?_⟩
  · simp only [CatchUp.next, here]
    show some (s.goto ((keys tx rows).map (.storePage c left offset rows))) = _
    rw [hkeys]
    rfl
  · simp only [CatchUp.store, ingestPage_ingest hr]
    rw [hpc]
    exact ⟨rfl, rfl⟩

/-! ## The pages that are contained -/

section
variable {tx : Text} {u : Upstream} {walletId : Nat} {db : Db}

/-- Going on from the newest page, it has been stored, and its timestamps are
integers if they are read. -/
theorem afterLatest_ok {b : Baseline} {latest : List Json} {r : Ingested} {pc : CatchUpPc}
    (h : afterLatest tx u walletId b latest db = .ok (r, pc)) :
    ingestPage tx u true walletId latest db = .ok r ∧
    (b.opens tx latest = true → WindowStamps latest) := by
  obtain ⟨latestKeys, hkeys, h⟩ := bind_ok h
  obtain ⟨r', hr, h⟩ := bind_ok h
  obtain ⟨pc', hpc, h⟩ := bind_ok h
  obtain ⟨rfl, rfl⟩ := Prod.mk.inj (Except.ok.inj h)
  obtain rfl := keys_eq hkeys
  exact ⟨hr, (storedLatest_ok_iff _).mp ⟨pc', hpc⟩⟩

theorem afterLatest_iff {b : Baseline} {latest : List Json} :
    (∃ r pc, afterLatest tx u walletId b latest db = .ok (r, pc) ∧
      Contained tx u true walletId db latest r) ↔
      Clean tx u true walletId db latest ∧ (b.opens tx latest = true → WindowStamps latest) := by
  constructor
  · rintro ⟨r, pc, h, hc⟩
    obtain ⟨hr, hstamps⟩ := afterLatest_ok h
    exact ⟨clean_of_contained hr hc, hstamps⟩
  · rintro ⟨hc, hstamps⟩
    obtain ⟨latestKeys, hkeys⟩ : ∃ ks, keys tx latest = .ok ks := keys_ok_iff.mpr hc.objects
    obtain rfl := keys_eq hkeys
    obtain ⟨r, hr⟩ := ingestPage_ok_iff.mpr ⟨hc.objects, hc.binds⟩
    obtain ⟨pc, hpc⟩ :=
      (storedLatest_ok_iff (c := (b.cycle tx latest (pageKeys tx latest)).count r) u.now).mpr
      hstamps
    refine ⟨r, pc, ?_, contained_of_clean hc hr⟩
    unfold afterLatest
    simp only [hkeys, hr, hpc, bind, Except.bind]
    rfl

theorem afterPage_iff {c : Cycle} {left offset : Nat} {rows : List Json} :
    (∃ r pc, afterPage tx u walletId c left offset rows db = .ok (r, pc) ∧
      Contained tx u true walletId db rows r) ↔
      Clean tx u true walletId db rows ∧ NumberStamps rows ∧
      (c.reopens tx rows = true → WindowStamps c.latest) := by
  constructor
  · rintro ⟨r, pc, h, hc⟩
    obtain ⟨ks, hkeys, h⟩ := bind_ok h
    obtain ⟨r', hr, h⟩ := bind_ok h
    obtain ⟨pc', hpc, h⟩ := bind_ok h
    obtain ⟨rfl, rfl⟩ := Prod.mk.inj (Except.ok.inj h)
    obtain rfl := keys_eq hkeys
    have hclean := clean_of_contained hr hc
    exact ⟨hclean,
      (storedPage_ok_iff (c := c.count r') left offset u.now hclean.objects).mp ⟨pc', hpc⟩⟩
  · rintro ⟨hc, hstamps⟩
    obtain ⟨ks, hkeys⟩ : ∃ ks, keys tx rows = .ok ks := keys_ok_iff.mpr hc.objects
    obtain rfl := keys_eq hkeys
    obtain ⟨r, hr⟩ := ingestPage_ok_iff.mpr ⟨hc.objects, hc.binds⟩
    obtain ⟨pc, hpc⟩ := (storedPage_ok_iff (c := c.count r) left offset u.now hc.objects).mpr hstamps
    refine ⟨r, pc, ?_, contained_of_clean hc hr⟩
    unfold afterPage
    simp only [hkeys, hr, hpc, bind, Except.bind]
    rfl

end

/-- A trade of the upstream, every field in place. -/
def goodFields : List (String × Json) :=
  [("transactionHash", .str "0x1"), ("proxyWallet", .str "w"),
    ("asset", .str "7"), ("size", .num "5"), ("price", .num "0.5"), ("timestamp", .num "3"),
    ("conditionId", .str "c"), ("outcome", .str "Yes")]

def goodRow : Json := .obj (("side", .str "BUY") :: goodFields)

def goodKey : String := "data-api:0x1:w:7:5:0.5:3"

/-- Gamma is down, the database takes everything. -/
def quietUpstream : Upstream := ⟨fun _ => .error (.apiError none), fun _ => none, fun _ => true, 0⟩

theorem goodRow_wellFormed :
    WellFormedRow Text.plain quietUpstream true 1 Db.empty goodKey goodRow := by
  refine ⟨by decide +kernel, rfl, ?_⟩
  have h : (insertTrade Text.plain (quietUpstream.row Text.plain goodRow) true 1 goodKey goodRow
      Db.empty).toOption.isSome = true := by decide +kernel
  obtain ⟨d, hd⟩ := Option.isSome_iff_exists.mp h
  refine ⟨d, ?_⟩
  cases hins : insertTrade Text.plain (quietUpstream.row Text.plain goodRow) true
    1 goodKey goodRow Db.empty with
  | ok d' =>
    rw [hins] at hd
    rw [Option.some.inj hd]
  | error e =>
    rw [hins] at hd
    cases hd

end Polycopy
