import Polycopy.Ingestion.Continuity

/-!
# What an open window still has to reach

Where the anchors a cycle adopts are trades of the source, an open window stands above
its anchor: `Standing` says at which ranks, and that the offset of its next page has not
passed it.  The lemmas `storedLatest_cases`, `takeTurn_cases` and `storedPage_cases` say
what the code between two awaits can do from there, and `Pursuing` is kept by each step
of a run, whatever arrives, fails or crashes.
-/

namespace Polycopy

open Py Feed Runs

variable {tx : Text}

/-- Fewer than 10000 trades in any one second. -/
def Source.Sparse (source : Source tx) : Prop := ∀ t, source.level t < 10000

/-- A key that is set is the key of a trade. -/
def Source.Knows (source : Source tx) (key : Option String) : Prop :=
  ∀ k, key = some k → k ≠ "" → ∃ r, source.At k r

/-- The window comes down from the timestamp `e` to its anchor at rank `a`;
its head is at rank `h`. -/
structure Standing (source : Source tx) (w : Window) (head : Option String)
    (a h : Nat) (e : Int) : Prop where
  within : w.nextOffset ≤ 10000
  anchor : ∃ k, w.anchorId = some k ∧ source.At k a
  frozen : w.endTimestamp = some e
  stamp : ∃ t ∈ source.entries, t.timestamp = e
  below : a + w.nextOffset < source.upTo e
  head : ∃ k, head = some k ∧ source.At k h
  order : a < h
  oldest : 0 < w.nextOffset → ∃ r, ∃ t : SourceTrade tx, source.entries[r]? = some t ∧
    w.windowOldest = some t.timestamp ∧ a < r ∧
    r + w.nextOffset ≤ source.upTo e

def Ahead (source : Source tx) (w : Window) (head : Option String) : Prop :=
  ∃ a h e, Standing source w head a h e

/-- The trade at rank `l` was the newest when the latest page was served. -/
structure Sighted (source : Source tx) (c : Cycle) (l : Nat) : Prop where
  rows : ∃ rows : List (SourceTrade tx), c.latest = rows.map SourceTrade.raw
  newest : ∃ t : SourceTrade tx, source.entries[l]? = some t ∧
    c.latestAnchor = some t.key ∧ t.key ∈ c.latestKeys ∧
    ∀ now e, newestTimestamp c.latest now = .ok e → e = t.timestamp
  anchor : ∀ k, c.anchor = some k → k ≠ "" → ∃ a, source.At k a ∧ a ≤ l

/-- The open window of a cycle, whose head was there when the latest page was served. -/
def Facing (source : Source tx) (c : Cycle) (l : Nat) : Prop :=
  c.window.anchorId = c.anchor ∧ ∃ a h e, Standing source c.window c.headAnchor a h e ∧ h ≤ l

/-- A cycle under way in its window. -/
structure Chasing (source : Source tx) (c : Cycle) : Prop where
  incomplete : c.incomplete = true
  size : 1 ≤ c.size
  facing : ∃ l, Sighted source c l ∧ Facing source c l

/-- A cycle that has its latest page. -/
structure Fetched (source : Source tx) (last : Option CatchUpRecord) (c : Cycle) : Prop where
  size : 1 ≤ c.size
  budget : 1 ≤ c.budget
  prior : c.prior = last
  reopened : c.incomplete = c.prior.any CatchUpRecord.catchUpIncomplete
  window : c.window = .ofPrior c.prior
  shows : (c.latest = [] ∧ isSet c.anchor = false ∧
    c.latestAnchor = c.anchor ∧ c.incomplete = false) ∨
    ∃ l, Sighted source c l ∧ (c.incomplete = true → Facing source c l)

/-- A checkpoint `source` bears out. -/
structure RecordFits (source : Source tx) (r : CatchUpRecord) : Prop where
  anchor : source.Knows r.anchorId
  window : r.catchUpIncomplete = true → Ahead source (.ofPrior (some r)) r.headAnchor
  stalled : r.terminationReason = "window_stalled" → ¬ source.Sparse

/-- The place the next page is asked for. -/
structure PageAt (c : Cycle) (offset : Nat) (e : Int) : Prop where
  cursor : c.window.nextOffset = offset
  room : offset < 10000
  frozen : c.window.endTimestamp = some e

def AfterFits (source : Source tx) (c : Cycle) : After → Prop
  | .done => True
  | .turn _ => Chasing source c
  | .page _ offset e => Chasing source c ∧ PageAt c offset e

/-- A page of the window; the source may have grown since it was served. -/
def PageServed (source : Source tx) (c : Cycle) (offset : Nat) (rows : List Json)
    (pageKeys : List String) : Prop :=
  ∃ m e k a, PageAt c offset e ∧ c.anchor = some k ∧ source.At k a ∧
    a + offset < m ∧ m ≤ source.upTo e ∧
    rows = (source.page m offset (min c.size (10000 - offset))).map SourceTrade.raw ∧
    pageKeys = (source.page m offset (min c.size (10000 - offset))).map SourceTrade.key

/-- What is true at each place of a cycle; `last` is the last checkpoint. -/
def Fits (source : Source tx) (last : Option CatchUpRecord) : CatchUpPc → Prop
  | .idle _ => True
  | .selecting size budget => 1 ≤ size ∧ 1 ≤ budget
  | .anchoring size budget prior =>
    1 ≤ size ∧ 1 ≤ budget ∧ prior = last ∧ prior.any CatchUpRecord.catchUpIncomplete = false
  | .awaitLatest b => 1 ≤ b.size ∧ 1 ≤ b.budget ∧ b.prior = last ∧ source.Knows b.anchor ∧
    (b.reopened = true → (Window.ofPrior b.prior).anchorId = b.anchor ∧
      Ahead source (.ofPrior b.prior) b.headAnchor)
  | .storeLatest c => Fetched source last c
  | .checkpoint c reason after =>
    (∀ wallet, RecordFits source (c.record wallet reason)) ∧ AfterFits source c after
  | .turn c _ => Chasing source c
  | .awaitPage c _ offset e => Chasing source c ∧ PageAt c offset e
  | .storePage c _ offset rows pageKeys =>
    Chasing source c ∧ PageServed source c offset rows pageKeys

/-! ## Arrivals -/

section

variable {source later : Source tx}

theorem Source.Sparse.of_grows (h : later.Sparse) (hg : source.Grows later) : source.Sparse :=
  fun t => Nat.lt_of_le_of_lt (Log.level_mono hg t) (h t)

theorem Source.Knows.grows {key : Option String} (h : source.Knows key)
    (hg : source.Grows later) : later.Knows key := by
  intro k hk hne
  obtain ⟨r, hr⟩ := h k hk hne
  exact ⟨r, hr.grows hg⟩

theorem Standing.grows {w : Window} {head : Option String} {a h : Nat} {e : Int}
    (st : Standing source w head a h e)
    (hg : source.Grows later) : Standing later w head a h e := by
  have hmono := Log.upTo_mono hg e
  obtain ⟨k, hk, hat⟩ := st.anchor
  obtain ⟨k', hk', hat'⟩ := st.head
  obtain ⟨t, ht, hte⟩ := st.stamp
  refine ⟨st.within, ⟨k, hk, hat.grows hg⟩, st.frozen, ⟨t, hg.subset ht, hte⟩,
    Nat.lt_of_lt_of_le st.below hmono, ⟨k', hk', hat'.grows hg⟩, st.order, fun hpos => ?_⟩
  obtain ⟨r, x, hx, hold, har, hru⟩ := st.oldest hpos
  exact ⟨r, x, hg.getElem? hx, hold, har, Nat.le_trans hru hmono⟩

theorem Ahead.grows {w : Window} {head : Option String}
    (h : Ahead source w head) (hg : source.Grows later) :
    Ahead later w head := by
  obtain ⟨a, h, e, st⟩ := h
  exact ⟨a, h, e, st.grows hg⟩

theorem Sighted.grows {c : Cycle} {l : Nat} (h : Sighted source c l)
    (hg : source.Grows later) : Sighted later c l := by
  obtain ⟨t, ht, hnewest⟩ := h.newest
  refine ⟨h.rows, ⟨t, hg.getElem? ht, hnewest⟩, fun k hk hne => ?_⟩
  obtain ⟨a, ha, hal⟩ := h.anchor k hk hne
  exact ⟨a, ha.grows hg, hal⟩

theorem Facing.grows {c : Cycle} {l : Nat} (h : Facing source c l)
    (hg : source.Grows later) : Facing later c l := by
  obtain ⟨hsame, a, h, e, st, hl⟩ := h
  exact ⟨hsame, a, h, e, st.grows hg, hl⟩

theorem Chasing.grows {c : Cycle} (h : Chasing source c)
    (hg : source.Grows later) : Chasing later c := by
  obtain ⟨l, hsighted, hfacing⟩ := h.facing
  exact ⟨h.incomplete, h.size, l, hsighted.grows hg, hfacing.grows hg⟩

theorem Fetched.grows {last : Option CatchUpRecord} {c : Cycle}
    (h : Fetched source last c) (hg : source.Grows later) :
    Fetched later last c := by
  refine ⟨h.size, h.budget, h.prior, h.reopened, h.window, h.shows.imp_right ?_⟩
  rintro ⟨l, hsighted, hfacing⟩
  exact ⟨l, hsighted.grows hg, fun hi => (hfacing hi).grows hg⟩

theorem RecordFits.grows {r : CatchUpRecord} (h : RecordFits source r)
    (hg : source.Grows later) : RecordFits later r :=
  ⟨h.anchor.grows hg, fun hi => (h.window hi).grows hg,
    fun hr hsparse => h.stalled hr (hsparse.of_grows hg)⟩

theorem PageServed.grows {c : Cycle} {offset : Nat} {rows : List Json} {pageKeys : List String}
    (h : PageServed source c offset rows pageKeys) (hg : source.Grows later) :
    PageServed later c offset rows pageKeys := by
  obtain ⟨m, e, k, a, hat, hk, ha, hin, hm, hrows, hkeys⟩ := h
  have hsame := Log.page_grows hg (Nat.le_trans hm (Log.upTo_le _ _)) offset
    (min c.size (10000 - offset))
  refine ⟨m, e, k, a, hat, hk, ha.grows hg, hin, Nat.le_trans hm (Log.upTo_mono hg e), ?_, ?_⟩
  · rw [hsame, hrows]
  · rw [hsame, hkeys]

theorem Fits.grows {last : Option CatchUpRecord} {pc : CatchUpPc}
    (h : Fits source last pc) (hg : source.Grows later) :
    Fits later last pc := by
  cases pc with
  | idle result => trivial
  | selecting size budget => exact h
  | anchoring size budget prior => exact h
  | awaitLatest b =>
    obtain ⟨hsize, hbudget, hprior, hknows, hahead⟩ := h
    exact ⟨hsize, hbudget, hprior, hknows.grows hg,
      fun hi => ⟨(hahead hi).1, (hahead hi).2.grows hg⟩⟩
  | storeLatest c => exact Fetched.grows h hg
  | checkpoint c reason after =>
    refine ⟨fun wallet => (h.1 wallet).grows hg, ?_⟩
    cases after with
    | done => trivial
    | turn left => exact Chasing.grows h.2 hg
    | page left offset e => exact ⟨Chasing.grows h.2.1 hg, h.2.2⟩
  | turn c left => exact Chasing.grows h hg
  | awaitPage c left offset e => exact ⟨Chasing.grows h.1 hg, h.2⟩
  | storePage c left offset rows pageKeys => exact ⟨Chasing.grows h.1 hg, h.2.grows hg⟩

end

/-! ## Checkpoints -/

section

variable {source : Source tx} {c : Cycle}

theorem Standing.knows {w : Window} {head : Option String} {a h : Nat} {e : Int}
    (st : Standing source w head a h e) :
    source.Knows w.anchorId := by
  obtain ⟨k, hk, ha⟩ := st.anchor
  intro k' hk' _
  exact ⟨a, by rwa [Option.some.inj (hk'.symm.trans hk)]⟩

theorem recordFits_open (hi : c.incomplete = true)
    (h : Ahead source c.window c.headAnchor) {reason : String}
    (hreason : reason = "window_stalled" → ¬ source.Sparse) (wallet : Wallet) :
    RecordFits source (c.record wallet reason) := by
  have hknows : source.Knows c.window.anchorId := by
    obtain ⟨a, h, e, st⟩ := h
    exact st.knows
  refine ⟨?_, fun _ => ?_, hreason⟩
  · simpa only [Cycle.record, hi, if_true] using hknows
  · simpa only [Cycle.record, Window.ofPrior, hi, if_true] using h

theorem recordFits_closed (hi : c.incomplete = false)
    (h : source.Knows c.latestAnchor) {reason : String} (hreason : reason ≠ "window_stalled")
    (wallet : Wallet) :
    RecordFits source (c.record wallet reason) := by
  refine ⟨?_, fun hopen => ?_, fun hr => absurd hr hreason⟩
  · simpa [Cycle.record, hi] using h
  · exact absurd (hi.symm.trans hopen) Bool.false_ne_true

theorem Chasing.ahead (h : Chasing source c) : Ahead source c.window c.headAnchor := by
  obtain ⟨l, -, -, a, h, e, st, -⟩ := h.facing
  exact ⟨a, h, e, st⟩

theorem Chasing.recordFits (h : Chasing source c) {reason : String}
    (hreason : reason = "window_stalled" → ¬ source.Sparse)
    (wallet : Wallet) : RecordFits source (c.record wallet reason) :=
  recordFits_open h.incomplete h.ahead hreason wallet

theorem Sighted.knows {l : Nat} (h : Sighted source c l) : source.Knows c.latestAnchor := by
  obtain ⟨t, ht, hk, -, -⟩ := h.newest
  intro k hk' _
  exact ⟨l, t, ht, Option.some.inj (hk.symm.trans hk')⟩

/-- A trade of the source that was there and is not on the latest page is older than the newest. -/
theorem Sighted.lt {l r : Nat} {k : String} (h : Sighted source c l)
    (hr : source.At k r) (hrl : r ≤ l) (hmiss : k ∉ c.latestKeys) : r < l := by
  obtain ⟨t, ht, -, hmem, -⟩ := h.newest
  refine Nat.lt_of_le_of_ne hrl ?_
  rintro rfl
  obtain ⟨x, hx, rfl⟩ := hr
  obtain rfl := Option.some.inj (ht.symm.trans hx)
  exact hmiss hmem

/-- A window that comes down from the newest timestamp to a trade that is not on the latest page. -/
theorem Sighted.opens {l r : Nat} {k : String} (h : Sighted source c l) {now : Time} {e : Int}
    (he : newestTimestamp c.latest now = .ok e) (hr : source.At k r) (hrl : r ≤ l)
    (hmiss : k ∉ c.latestKeys) :
    Standing source ⟨some k, some e, 0, none⟩ c.latestAnchor r l e := by
  have hlt := h.lt hr hrl hmiss
  obtain ⟨t, ht, hk, -, hstamp⟩ := h.newest
  obtain rfl := hstamp now e he
  have hup : l < source.upTo t.timestamp := (Log.lt_upTo_iff ht).mpr (Int.le_refl _)
  exact ⟨Nat.zero_le _, ⟨k, rfl, hr⟩, rfl, ⟨t, List.mem_of_getElem? ht, rfl⟩, Nat.lt_trans hlt hup,
    ⟨t.key, hk, t, ht, rfl⟩, hlt, fun hpos => absurd hpos (Nat.lt_irrefl 0)⟩

/-! ## The code between two awaits -/

/-- The rows of the newest page, and its first one. -/
theorem head?_latest {size : Nat} (hsize : 1 ≤ size) {t : SourceTrade tx}
    (ht : source.entries[source.entries.length - 1]? = some t) :
    (source.page source.entries.length 0 size).head? = some t := by
  have hlt := (List.getElem?_eq_some_iff.mp ht).1
  rw [List.head?_eq_getElem?, Log.getElem?_page (le_refl _) (by omega) (by omega)]
  exact ht

theorem newestTimestamp_latest {size : Nat} (hsize : 1 ≤ size) {t : SourceTrade tx}
    (ht : source.entries[source.entries.length - 1]? = some t) {now : Time} {e : Int}
    (he : newestTimestamp ((source.page source.entries.length 0 size).map SourceTrade.raw) now =
      .ok e) :
    e = t.timestamp := by
  have hmem : t ∈ source.page source.entries.length 0 size :=
    List.mem_of_mem_head? (head?_latest hsize ht)
  have hle : t.timestamp ≤ e := le_newestTimestamp he t hmem
  have hall : ∀ x ∈ source.page source.entries.length 0 size, x.timestamp ≤ t.timestamp := by
    intro x hx
    obtain ⟨r, hr, -, hlt⟩ := (Log.mem_page (le_refl _) 0 size).mp hx
    exact Log.ts_le hr ht (by omega)
  refine le_antisymm ?_ hle
  unfold newestTimestamp at he
  rw [mapM_timestampOf] at he
  obtain rfl := Except.ok.inj he
  cases hmax : ((source.page source.entries.length 0 size).map SourceTrade.timestamp).max? with
  | none =>
    rw [List.max?_eq_none_iff, List.map_eq_nil_iff] at hmax
    rw [hmax] at hmem
    exact (List.not_mem_nil hmem).elim
  | some top =>
    obtain ⟨x, hx, rfl⟩ := List.mem_map.mp (List.max?_eq_some_iff.mp hmax).1
    exact hall x hx

theorem gotLatest_fits {last : Option CatchUpRecord} {b : Baseline} {pc : CatchUpPc}
    (h : Fits source last (.awaitLatest b))
    (hpc : gotLatest tx b (source.getTrades ⟨b.size, 0, none, none⟩) = .ok pc) :
    ∃ c, pc = .storeLatest c ∧ Fetched source last c := by
  obtain ⟨hsize, hbudget, hprior, hknows, hahead⟩ := h
  rw [getTrades_latest] at hpc
  unfold gotLatest at hpc
  rw [keys_raw, firstKey_raw] at hpc
  obtain rfl := Except.ok.inj hpc
  refine ⟨_, rfl, hsize, hbudget, hprior, rfl, rfl, ?_⟩
  by_cases hn : source.entries.length = 0
  · have hnone : ∀ k r, ¬ source.At k r := fun k r hr => by
      have := hr.lt
      omega
    have hnil : source.page source.entries.length 0 b.size = [] := by
      refine List.length_eq_zero_iff.mp ?_
      rw [Log.length_page (le_refl _)]
      omega
    left
    rw [hnil]
    refine ⟨rfl, ?_, rfl, ?_⟩
    · rw [Bool.eq_false_iff]
      intro hset
      obtain ⟨k, hk, hne⟩ := View.isSet_iff.mp hset
      obtain ⟨r, hr⟩ := hknows k hk hne
      exact hnone k r hr
    · show b.reopened = false
      rw [Bool.eq_false_iff]
      intro hi
      obtain ⟨-, a, h, e, st⟩ := hahead hi
      obtain ⟨k, -, ha⟩ := st.anchor
      exact hnone k a ha
  · obtain ⟨t, ht⟩ : ∃ t, source.entries[source.entries.length - 1]? = some t :=
      ⟨_, List.getElem?_eq_getElem (by omega)⟩
    have hhead := head?_latest hsize ht
    refine .inr ⟨source.entries.length - 1,
      ⟨⟨_, rfl⟩, ⟨t, ht, ?_, ?_, fun now e he => newestTimestamp_latest hsize ht he⟩,
      fun k hk hne => ?_⟩, fun hi => ?_⟩
    · rw [hhead]
      rfl
    · exact List.mem_map_of_mem (List.mem_of_mem_head? hhead)
    · obtain ⟨a, ha⟩ := hknows k hk hne
      exact ⟨a, ha, Nat.le_sub_one_of_lt ha.lt⟩
    · obtain ⟨hsame, a, h, e, st⟩ := hahead hi
      obtain ⟨k, hk, hh⟩ := st.head
      exact ⟨hsame, a, h, e, st, Nat.le_sub_one_of_lt hh.lt⟩

/-- What follows the newest page: the window goes on or a new one opens, or nothing is missing. -/
inductive LatestStored (source : Source tx) (c : Cycle) : CatchUpPc → Prop
  | window (c' : Cycle) (chasing : Chasing source c') (same : c.incomplete = true →
      c'.window = c.window) :
      LatestStored source c (.checkpoint c' "recovery_in_progress" (.turn c.budget))
  | closed (c' : Cycle) (reason : String) (closed : c'.incomplete = false)
      (knows : source.Knows c'.latestAnchor)
      (goes : reason ≠ "window_stalled") : LatestStored source c (.checkpoint c' reason .done)
  | kept (prior : c.prior.isSome = true) (closed : c.incomplete = false) :
      LatestStored source c (.idle (some c.result))

theorem Sighted.withHead {l : Nat} (h : Sighted source c l) (head : Option String) :
    Sighted source { c with headAnchor := head } l :=
  ⟨h.rows, h.newest, h.anchor⟩

/-- The head of an open window moves to the newest trade, or not at all. -/
theorem Facing.moveHead {l : Nat} (h : Facing source c l) (hs : Sighted source c l) :
    Facing source { c with headAnchor := c.moveHead.headAnchor } l := by
  obtain ⟨hsame, a, h, e, st, hl⟩ := h
  refine ⟨hsame, ?_⟩
  unfold Cycle.moveHead
  split
  · obtain ⟨t, ht, hk, -, -⟩ := hs.newest
    exact ⟨a, l, e, ⟨st.within, st.anchor, st.frozen, st.stamp, st.below, ⟨t.key, hk, t, ht, rfl⟩,
      Nat.lt_of_lt_of_le st.order hl, st.oldest⟩, le_refl l⟩
  · exact ⟨a, h, e, st, hl⟩

/-- The anchor of an open window is not the newest trade. -/
theorem Facing.ne_latest {l : Nat} (h : Facing source c l) (hs : Sighted source c l) :
    c.latestAnchor ≠ c.anchor := by
  obtain ⟨hsame, a, h, e, st, hl⟩ := h
  obtain ⟨k, hk, ha⟩ := st.anchor
  obtain ⟨t, ht, hkt, -, -⟩ := hs.newest
  intro heq
  rw [← hsame, hk, hkt] at heq
  obtain rfl := Option.some.inj heq
  have hal : a = l := ha.unique ⟨t, ht, rfl⟩
  have := st.order
  omega

theorem knows_unset {key : Option String} (h : isSet key = false) : source.Knows key := by
  intro k hk hne
  exact absurd ((View.isSet_iff.mpr ⟨k, hk, hne⟩).symm.trans h) nofun

theorem storedLatest_cases {last : Option CatchUpRecord} {now : Time}
    {pc : CatchUpPc} (h : Fetched source last c)
    (hpc : storedLatest c now = .ok pc) : LatestStored source c pc := by
  unfold storedLatest at hpc
  rw [Cycle.moveHead_eq] at hpc
  dsimp only at hpc
  split at hpc
  · next hlost =>
    simp only [Bool.and_eq_true, Bool.not_eq_true'] at hlost
    obtain ⟨⟨hi, hset⟩, hanchor⟩ := hlost
    obtain ⟨e, he, hpc⟩ := bind_ok hpc
    obtain rfl := Except.ok.inj hpc
    rcases h.shows with ⟨-, hunset, -⟩ | ⟨l, hs, -⟩
    · exact absurd (hset.symm.trans hunset) nofun
    · obtain ⟨k, hk, hne⟩ := View.isSet_iff.mp hset
      obtain ⟨a, ha, hal⟩ := hs.anchor k hk hne
      have hmiss : k ∉ c.latestKeys := fun hmem =>
        absurd ((View.among_iff.mpr ⟨k, hk, hmem⟩).symm.trans hanchor) nofun
      have hhead : c.moveHead.headAnchor = c.latestAnchor := by
        unfold Cycle.moveHead
        rw [hi]
        rfl
      refine .window _ ⟨rfl, h.size, l, ⟨hs.rows, hs.newest, hs.anchor⟩, rfl, a, l, e, ?_, le_refl l⟩
        fun hopen => absurd (hi.symm.trans hopen) nofun
      show Standing source ⟨c.anchor, some e, 0, none⟩ c.moveHead.headAnchor a l e
      rw [hhead, hk]
      exact hs.opens he ha hal hmiss
  · split at hpc
    · next hstill =>
      simp only [Bool.and_eq_true, Bool.not_eq_true'] at hstill
      obtain ⟨hi, hanchor⟩ := hstill
      obtain rfl := Except.ok.inj hpc
      rcases h.shows with ⟨-, -, -, hclosed⟩ | ⟨l, hs, hfacing⟩
      · exact absurd (hi.symm.trans hclosed) nofun
      · exact .window _ ⟨hi, h.size, l, hs.withHead _, (hfacing hi).moveHead hs⟩ fun _ => rfl
    · next hkept =>
      have hknows : source.Knows c.latestAnchor := by
        rcases h.shows with ⟨-, hunset, hsame, -⟩ | ⟨l, hs, -⟩
        · rw [hsame]
          exact knows_unset hunset
        · exact hs.knows
      split at hpc
      · obtain rfl := Except.ok.inj hpc
        refine .closed _ _ rfl hknows ?_
        split <;> decide
      · next hsame =>
        obtain rfl := Except.ok.inj hpc
        rw [Bool.or_eq_true, not_or, decide_eq_true_eq, not_not, Option.isNone_iff_eq_none] at hsame
        refine .kept (Option.isSome_iff_ne_none.mpr hsame.1) ?_
        rcases h.shows with ⟨-, -, -, hclosed⟩ | ⟨l, hs, hfacing⟩
        · exact hclosed
        · rw [Bool.eq_false_iff]
          exact fun hi => (hfacing hi).ne_latest hs hsame.2

/-- What a turn of the loop does. -/
inductive TurnTaken (source : Source tx) (c : Cycle) (left : Nat)
    (wallet : Option Wallet) : CatchUpPc → Prop
  | page (e : Int) (here : PageAt c c.window.nextOffset e) :
      TurnTaken source c left wallet (.awaitPage c left c.window.nextOffset e)
  | rolled (oldest : Int) (chasing : Chasing source (c.roll oldest)) (older : ∀ e,
      c.window.endTimestamp = some e → oldest < e) :
      TurnTaken source c left wallet
        (.checkpoint (c.roll oldest) "window_rolled" (.page left 0 oldest))
  | disabled (row : Wallet) (found : wallet = some row) (off : row.approvalState ≠ .approved) :
      TurnTaken source c left wallet (.checkpoint c "wallet_disabled" .done)
  | stalled (crowded : ¬ source.Sparse) :
      TurnTaken source c left wallet (.checkpoint c "window_stalled" .done)

/-- A window that has been read down to offset 10000 goes on from its oldest timestamp. -/
theorem Standing.roll {w : Window} {head : Option String} {a h : Nat} {e oldest : Int}
    (st : Standing source w head a h e) (hfull : 10000 ≤ w.nextOffset)
    (hold : w.windowOldest = some oldest) :
    Standing source { w with endTimestamp := some oldest, nextOffset := 0 } head a h oldest := by
  obtain ⟨r, t, ht, hold', har, hru⟩ := st.oldest (by omega)
  obtain rfl := Option.some.inj (hold.symm.trans hold')
  have hr : r < source.upTo t.timestamp := (Log.lt_upTo_iff ht).mpr (Int.le_refl _)
  exact ⟨Nat.zero_le _, st.anchor, rfl, ⟨t, List.mem_of_getElem? ht, rfl⟩,
    Nat.lt_trans har hr, st.head, st.order, fun hpos => absurd hpos (Nat.lt_irrefl 0)⟩

/-- Only a second with 10000 trades stops it there. -/
theorem Standing.crowded {w : Window} {head : Option String} {a h : Nat} {e oldest : Int}
    (st : Standing source w head a h e) (hfull : 10000 ≤ w.nextOffset)
    (hold : w.windowOldest = some oldest) (hle : e ≤ oldest) : ¬ source.Sparse := by
  obtain ⟨r, t, ht, hold', -, hru⟩ := st.oldest (by omega)
  obtain rfl := Option.some.inj (hold.symm.trans hold')
  have hlevel : source.upTo e - r ≤ source.level e := Log.sub_le_level ht hle
  intro hsparse
  have := hsparse e
  omega

theorem takeTurn_cases {left : Nat} {wallet : Option Wallet} {pc : CatchUpPc} (h : Chasing source c)
    (hpc : takeTurn c left wallet = .ok pc) : TurnTaken source c left wallet pc := by
  obtain ⟨l, hs, hsame, a, hd, e, st, hl⟩ := h.facing
  have hend : c.endTimestamp = .ok e := by
    unfold Cycle.endTimestamp
    rw [st.frozen]
  unfold takeTurn at hpc
  split at hpc
  · cases hpc
  · next row =>
    split at hpc
    · next hoff =>
      obtain rfl := Except.ok.inj hpc
      exact .disabled row rfl hoff
    · split at hpc
      · next hfull =>
        split at hpc
        · next hnone =>
          obtain ⟨r, t, -, hold, -⟩ := st.oldest (by omega)
          exact absurd (hnone.symm.trans hold) nofun
        · next oldest hold =>
          rw [hend] at hpc
          obtain rfl := Except.ok.inj hpc
          dsimp only
          split
          · next hle => exact .stalled (st.crowded hfull hold hle)
          · next hlt =>
            refine .rolled oldest ⟨h.incomplete, h.size, l,
              ⟨hs.rows, hs.newest, hs.anchor⟩, hsame, a, hd, oldest,
              st.roll hfull hold, hl⟩ fun e' he' => ?_
            obtain rfl := Option.some.inj (st.frozen.symm.trans he')
            exact not_le.mp hlt
      · next hroom =>
        rw [hend] at hpc
        obtain rfl := Except.ok.inj hpc
        exact .page e ⟨rfl, not_le.mp hroom, st.frozen⟩

theorem gotPage_fits {left offset : Nat} {e : Int}
    {last : Option CatchUpRecord} {pageKeys : List String}
    (h : Chasing source c ∧ PageAt c offset e)
    (hkeys : keys tx (source.getTrades ⟨min c.size (10000 - offset), offset, some 1, some e⟩) =
      .ok pageKeys) :
    Fits source last (.storePage c left offset
      (source.getTrades ⟨min c.size (10000 - offset), offset, some 1, some e⟩) pageKeys) := by
  obtain ⟨hchasing, hat⟩ := h
  obtain ⟨l, hs, hsame, a, hd, e', st, hl⟩ := hchasing.facing
  obtain ⟨k, hk, ha⟩ := st.anchor
  obtain rfl := Option.some.inj (st.frozen.symm.trans hat.frozen)
  rw [getTrades_page] at hkeys ⊢
  rw [keys_raw] at hkeys
  refine ⟨hchasing, source.upTo e', e', k, a, hat, hsame.symm.trans hk, ha, ?_, le_refl _,
    rfl, (Except.ok.inj hkeys).symm⟩
  rw [← hat.cursor]
  exact st.below

/-- What follows a page of the window. -/
inductive PageStored (source : Source tx) (c : Cycle) (left : Nat) : CatchUpPc → Prop
  | next (c' : Cycle) (opened : c'.incomplete = true)
      (ahead : Ahead source c'.window c'.headAnchor) (a h : Nat)
      (k k' : String) (reached : c.window.anchorId = some k) (low : source.At k a)
        (aim : c'.window.anchorId = some k')
      (high : source.At k' h) (order : a < h) :
      PageStored source c left (.checkpoint c' "next_window_pending" .done)
  | closed (c' : Cycle) (closed : c'.incomplete = false) (knows : source.Knows c'.latestAnchor) :
      PageStored source c left (.checkpoint c' "overlap_found" .done)
  | more (c' : Cycle) (chasing : Chasing source c') (anchor : c'.window.anchorId = c.window.anchorId)
      (frozen : c'.window.endTimestamp = c.window.endTimestamp)
        (farther : c.window.nextOffset < c'.window.nextOffset) :
      PageStored source c left (.checkpoint c' "budget_reached" (.turn (left - 1)))

/-- A page above the anchor is full, and the window comes down by it. -/
theorem Standing.page {w : Window} {head : Option String} {a h m limit : Nat} {e : Int}
    (st : Standing source w head a h e) (hm : m ≤ source.upTo e) (hpos : 0 < limit)
    (hroom : w.nextOffset + limit ≤ 10000) (hbelow : a + w.nextOffset + limit < m) :
    (source.page m w.nextOffset limit).length = limit ∧
      Standing source { w with
          nextOffset := w.nextOffset + limit
          windowOldest := ((source.page m w.nextOffset limit).map
            SourceTrade.timestamp).min?.or w.windowOldest }
        head a h e := by
  have hmlen : m ≤ source.entries.length := le_trans hm (Log.upTo_le _ _)
  obtain ⟨x, hx, hmem, hmin⟩ :=
    Log.oldest_page (L := source) hmlen (by omega : w.nextOffset + limit ≤ m) hpos
  have hlen : (source.page m w.nextOffset limit).length = limit := by
    rw [Log.length_page hmlen]
    omega
  have hoff : a + (w.nextOffset + limit) < source.upTo e := by omega
  refine ⟨hlen, hroom, st.anchor, st.frozen, st.stamp, hoff, st.head, st.order, fun _ => ?_⟩
  refine ⟨m - w.nextOffset - limit, x, hx, ?_, by omega, by dsimp only; omega⟩
  have hold : ((source.page m w.nextOffset limit).map SourceTrade.timestamp).min? =
      some x.timestamp := by
    refine List.min?_eq_some_iff.mpr ⟨List.mem_map_of_mem hmem, fun y hy => ?_⟩
    obtain ⟨t, ht, rfl⟩ := List.mem_map.mp hy
    exact hmin t ht
  rw [hold]
  rfl

theorem storedPage_cases {left offset : Nat} {rows : List Json} {pageKeys : List String}
    {now : Time} {pc : CatchUpPc} (h : Chasing source c)
    (hserved : PageServed source c offset rows pageKeys)
    (hpc : storedPage c left offset rows pageKeys now = .ok pc) : PageStored source c left pc := by
  obtain ⟨l, hs, hsame, a, hd, e, st, hl⟩ := h.facing
  obtain ⟨m, e', k, a', hat, hk, ha', hin, hm, rfl, rfl⟩ := hserved
  obtain rfl := Option.some.inj (st.frozen.symm.trans hat.frozen)
  obtain rfl := hat.cursor
  obtain ⟨k', hk', ha⟩ := st.anchor
  obtain rfl := Option.some.inj (hk'.symm.trans (hsame.trans hk))
  obtain rfl := ha.unique ha'
  have hmlen : m ≤ source.entries.length := le_trans hm (Log.upTo_le _ _)
  unfold storedPage at hpc
  rw [times_raw] at hpc
  change (if _ then _ else _) = _ at hpc
  split at hpc
  · split at hpc
    · next hgap =>
      rw [Bool.and_eq_true, Bool.not_eq_true'] at hgap
      obtain ⟨newest, hnewest, hpc⟩ := bind_ok hpc
      obtain rfl := Except.ok.inj hpc
      obtain ⟨kh, hkh, hh⟩ := st.head
      have hmiss : kh ∉ c.latestKeys := fun hmem =>
        absurd ((View.among_iff.mpr ⟨kh, hkh, hmem⟩).symm.trans hgap.2) nofun
      have hopens := hs.opens hnewest hh hl hmiss
      refine .next _ rfl ⟨hd, l, newest, ?_⟩ a hd _ _ hk' ha hkh hh st.order
      show Standing source ⟨c.headAnchor, some newest, 0, none⟩ c.latestAnchor hd l newest
      rw [hkh]
      exact hopens
    · obtain rfl := Except.ok.inj hpc
      exact .closed _ rfl hs.knows
  · next hmissed =>
    have hpos : 0 < min c.size (10000 - c.window.nextOffset) := by
      have := h.size
      have := hat.room
      omega
    have hbelow := ha.below_page (min c.size (10000 - c.window.nextOffset)) hmlen hin fun hmem =>
      hmissed (View.among_iff.mpr ⟨_, hk, hmem⟩)
    obtain ⟨hlen, hst⟩ := st.page hm hpos (by have := hat.room; omega) hbelow
    rw [List.length_map, hlen] at hpc
    rw [if_neg (Nat.lt_irrefl _)] at hpc
    obtain rfl := Except.ok.inj hpc
    refine .more _ ⟨h.incomplete, h.size, l, ⟨hs.rows, hs.newest, hs.anchor⟩,
      hsame, a, hd, e, ?_, hl⟩ rfl rfl ?_
    · exact hst
    · exact Nat.lt_add_of_pos_right hpos

/-! ## Each place fits -/

theorem LatestStored.fits {last : Option CatchUpRecord} {pc : CatchUpPc}
    (h : LatestStored source c pc) : Fits source last pc := by
  cases h with
  | window c' chasing same => exact ⟨chasing.recordFits fun hr => absurd hr (by decide), chasing⟩
  | closed c' reason closed knows goes => exact ⟨recordFits_closed closed knows goes, trivial⟩
  | kept prior closed => trivial

theorem TurnTaken.fits {last : Option CatchUpRecord} {left : Nat}
    {wallet : Option Wallet} {pc : CatchUpPc} (h : TurnTaken source c left wallet pc)
    (hc : Chasing source c) : Fits source last pc := by
  cases h with
  | page e here => exact ⟨hc, here⟩
  | rolled oldest chasing older =>
    exact ⟨chasing.recordFits fun hr => absurd hr (by decide), chasing, rfl, by decide, rfl⟩
  | disabled row found off => exact ⟨hc.recordFits fun hr => absurd hr (by decide), trivial⟩
  | stalled crowded => exact ⟨hc.recordFits fun _ => crowded, trivial⟩

theorem PageStored.fits {last : Option CatchUpRecord} {left : Nat} {pc : CatchUpPc}
    (h : PageStored source c left pc) :
    Fits source last pc := by
  cases h with
  | next c' opened ahead a h k k' reached low aim high order =>
    exact ⟨recordFits_open opened ahead fun hr => absurd hr (by decide), trivial⟩
  | closed c' closed knows => exact ⟨recordFits_closed closed knows (by decide), trivial⟩
  | more c' chasing anchor frozen farther =>
    exact ⟨chasing.recordFits fun hr => absurd hr (by decide), chasing⟩

theorem AfterFits.resume {last : Option CatchUpRecord} {after : After}
    (h : AfterFits source c after) :
    Fits source last (resume c after) := by
  unfold Polycopy.resume
  split
  · trivial
  · trivial
  · exact h
  · exact h

/-! Counting the rows of a page changes nothing of this. -/

theorem Sighted.count {l : Nat} (h : Sighted source c l) (r : Ingested) :
    Sighted source (c.count r) l :=
  ⟨h.rows, h.newest, h.anchor⟩

theorem Chasing.count (h : Chasing source c) (r : Ingested) : Chasing source (c.count r) := by
  obtain ⟨l, hs, hfacing⟩ := h.facing
  exact ⟨h.incomplete, h.size, l, hs.count r, hfacing⟩

theorem Fetched.count {last : Option CatchUpRecord} (h : Fetched source last c) (r : Ingested) :
    Fetched source last (c.count r) := by
  refine ⟨h.size, h.budget, h.prior, h.reopened, h.window, h.shows.imp_right ?_⟩
  rintro ⟨l, hs, hfacing⟩
  exact ⟨l, hs.count r, hfacing⟩

theorem PageServed.count {offset : Nat} {rows : List Json} {pageKeys : List String}
    (h : PageServed source c offset rows pageKeys) (r : Ingested) :
    PageServed source (c.count r) offset rows pageKeys := by
  obtain ⟨m, e, k, a, hat, hrest⟩ := h
  exact ⟨m, e, k, a, ⟨hat.cursor, hat.room, hat.frozen⟩, hrest⟩

end

/-! ## Steps of a run -/

/-- The anchor a cycle takes from the trades table is a trade of the source. -/
def Adopts (wallet : Wallet) (w : World tx) (e : WorldEvent) (_ : World tx) : Prop :=
  match w.own.pc, e with
  | .anchoring _ _ _, .own .select => w.source.Knows (w.own.db.newestTrade wallet.id)
  | _, _ => True

structure Pursuing (wallet : Wallet) (w : World tx) : Prop where
  log : ∀ r ∈ w.own.db.catchUps wallet.id, RecordFits w.source r
  pc : Fits w.source (w.own.db.catchUps wallet.id).getLast? w.own.pc

section

variable {wallet : Wallet} {w : World tx}

theorem World.Start.pursuing (h : w.Start wallet) : Pursuing wallet w := by
  refine ⟨fun r hr => ?_, ?_⟩
  · rw [h.log] at hr
    exact (List.not_mem_nil hr).elim
  · rw [h.pc]
    trivial

/-- What leaves the checkpoints and the source alone. -/
theorem Pursuing.keep (h : Pursuing wallet w) {own : CatchUp}
    (hlog : own.db.catchUps wallet.id = w.own.db.catchUps wallet.id)
    (hpc : Fits w.source (w.own.db.catchUps wallet.id).getLast? own.pc) :
    Pursuing wallet { w with own := own } := by
  refine ⟨?_, ?_⟩
  · show ∀ r ∈ own.db.catchUps wallet.id, RecordFits w.source r
    rw [hlog]
    exact h.log
  · show Fits w.source (own.db.catchUps wallet.id).getLast? own.pc
    rw [hlog]
    exact hpc

theorem Pursuing.goto (h : Pursuing wallet w) {pc : Except Exc CatchUpPc}
    (hpc : ∀ p, pc = .ok p → Fits w.source (w.own.db.catchUps wallet.id).getLast? p) :
    Pursuing wallet { w with own := w.own.goto pc } := by
  refine h.keep rfl ?_
  cases pc with
  | error e => trivial
  | ok p => exact hpc p rfl

/-- A committed page is no checkpoint. -/
theorem catchUps_written {db : Db} {r : Ingested} (h : Written db r) (walletId : Nat) :
    r.db.catchUps walletId = db.catchUps walletId := by
  obtain ⟨markets, trades, hdb⟩ := h.rest
  rw [hdb]
  rfl

theorem Pursuing.store (h : Pursuing wallet w) {env : PageEnv} {rows : List Json}
    {after : Ingested → Except Exc CatchUpPc}
    (hafter : ∀ r p, after r = .ok p → Fits w.source (w.own.db.catchUps wallet.id).getLast? p) :
    Pursuing wallet { w with own := w.own.store tx env wallet.id rows after } := by
  unfold CatchUp.store
  split
  · exact h.goto fun p hp => by cases hp
  · next r hr =>
    obtain ⟨hwritten, -⟩ := ingestTradeRows_ok hr
    refine h.keep (catchUps_written hwritten wallet.id) ?_
    unfold CatchUp.goto
    cases hpc : after r with
    | error e => trivial
    | ok p => exact hafter r p hpc

theorem Pursuing.own (h : Pursuing wallet w) {e : CatchUpEvent} {own : CatchUp} (honest : e.honest)
    (hadopts : Adopts wallet w (.own e) { w with own := own })
    (hstep : w.own.next tx wallet e = some own) :
    Pursuing wallet { w with own := own } := by
  have hpc := h.pc
  cases CatchUp.moves_of_next hstep with
  | begin cfg result here =>
    exact h.keep rfl ⟨one_le_pageSize cfg, Nat.le_max_left 1 _⟩
  | anchored size budget set here =>
    rw [here] at hpc
    refine h.keep rfl ⟨hpc.1, hpc.2, rfl, ?_, ?_⟩
    · cases hlast : (w.own.db.catchUps wallet.id).getLast? with
      | none => exact knows_unset rfl
      | some r => exact (h.log r (List.mem_of_getLast? hlast)).anchor
    · cases hlast : (w.own.db.catchUps wallet.id).getLast? with
      | none => nofun
      | some r => exact fun hi => ⟨rfl, (h.log r (List.mem_of_getLast? hlast)).window hi⟩
  | unanchored size budget unset here =>
    rw [here] at hpc
    refine h.keep rfl ⟨hpc.1, hpc.2, rfl, ?_⟩
    cases hlast : (w.own.db.catchUps wallet.id).getLast? with
    | none => rfl
    | some r =>
      rw [hlast] at unset
      show r.catchUpIncomplete = false
      rw [Bool.eq_false_iff]
      intro hi
      obtain ⟨a, hd, e, st⟩ := (h.log r (List.mem_of_getLast? hlast)).window hi
      obtain ⟨k, hk, t, -, rfl⟩ := st.anchor
      exact unset (View.isSet_iff.mpr ⟨t.key, hk, t.key_ne_empty⟩)
  | anchor size budget prior here =>
    rw [here] at hpc
    obtain ⟨hsize, hbudget, hprior, hclosed⟩ := hpc
    unfold Adopts at hadopts
    rw [here] at hadopts
    exact h.keep rfl ⟨hsize, hbudget, hprior, hadopts,
      fun hi => absurd (hclosed.symm.trans hi) nofun⟩
  | latest b response here =>
    cases response with
    | ok rows => exact honest.elim
    | error err => exact h.goto fun p hp => by cases hp
  | page c left offset e response here =>
    cases response with
    | ok rows => exact honest.elim
    | error err => exact h.goto fun p hp => by cases hp
  | storeLatest c env now here =>
    rw [here] at hpc
    exact h.store fun r p hp => (storedLatest_cases (Fetched.count hpc r) hp).fits
  | storePage c left offset rows pageKeys env now here =>
    rw [here] at hpc
    exact h.store fun r p hp => (storedPage_cases (hpc.1.count r) (hpc.2.count r) hp).fits
  | commit c reason after here =>
    rw [here] at hpc
    refine ⟨fun r hr => ?_, hpc.2.resume⟩
    rw [catchUps_log _ _ _ wallet.id rfl] at hr
    rcases List.mem_append.mp hr with hr | hr
    · exact h.log r hr
    · obtain rfl := List.mem_singleton.mp hr
      exact hpc.1 wallet
  | refresh c left here =>
    rw [here] at hpc
    exact h.goto fun p hp => (takeTurn_cases hpc hp).fits hpc
  | crash => exact h.goto fun p hp => by cases hp

theorem Pursuing.reply (h : Pursuing wallet w) {r : TradesRequest} {own : CatchUp}
    (hasked : w.own.pc.request = some r)
    (hstep : w.own.next tx wallet (.fetch (.ok (w.source.getTrades r))) = some own) :
    Pursuing wallet { w with own := own } := by
  have hpc := h.pc
  cases CatchUp.moves_of_next hstep with
  | latest b response here =>
    rw [here] at hpc hasked
    obtain rfl := Option.some.inj hasked
    refine h.goto fun p hp => ?_
    obtain ⟨c, rfl, hfetched⟩ := gotLatest_fits hpc hp
    exact hfetched
  | page c left offset e response here =>
    rw [here] at hpc hasked
    obtain rfl := Option.some.inj hasked
    refine h.goto fun p hp => ?_
    obtain ⟨pageKeys, hkeys, rfl⟩ := map_ok hp
    exact gotPage_fits hpc hkeys

theorem Pursuing.step (h : Pursuing wallet w) {e : WorldEvent} {w' : World tx}
    (hs : WorldStep wallet w e w') (hadopts : Adopts wallet w e w') : Pursuing wallet w' := by
  cases hs with
  | arrive source grows => exact ⟨fun r hr => (h.log r hr).grows grows, h.pc.grows grows⟩
  | reply r own asked step => exact h.reply asked step
  | elsewhere db step =>
    refine h.keep step.log ?_
    exact h.pc
  | own e own honest step => exact h.own honest hadopts step

end

end Polycopy
