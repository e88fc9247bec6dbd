import Polycopy.Ingestion.Source

/-!
# What a cycle and its checkpoints know

The invariant of the catch-up is about a `View`: the source, what has been handed
over, and the anchor of the first checkpoint.  Two things are true of every
checkpoint and of every cycle under way:

* `Linked`: everything between the first anchor and the anchor it records;
* `Recovering`, while a window is open: everything the window has scanned, from
  its offset up to the moving head (`Log.Scanned`).

A window closes where a page meets the anchor, and its head is then linked.  The
lemmas `gotLatest_ok` … `resume_ok` say that the code between two awaits keeps
this, `PcOk.le` that arrivals and pages handed over do.
-/

namespace Polycopy

open Py Feed

variable {tx : Text}

structure View (tx : Text) where
  source : Source tx
  handed : List Json
  first : Option String

namespace View

def Handed (v : View tx) (t : SourceTrade tx) : Prop := t.raw ∈ v.handed

def Linked (v : View tx) (anchor : Option String) : Prop :=
  ∀ k₀, v.first = some k₀ → k₀ ≠ "" → ∃ k, anchor = some k ∧ v.source.Reached v.Handed k₀ k

/-- The window scanned from its head; a head that is the anchor has nothing to scan. -/
def Recovering (v : View tx) (anchor : Option String) (w : Window) (head : Option String) : Prop :=
  isSet anchor = true ∧ w.anchorId = anchor ∧
    (head = anchor ∨ ∃ k e, head = some k ∧ w.endTimestamp = some e ∧
    v.source.Scanned v.Handed (v.source.upTo e - w.nextOffset) w.windowOldest k)

/-- The newest page is a piece of the source without holes, its first row the newest. -/
def Shows (v : View tx) (latest : List Json) (latestKeys : List String)
    (latestAnchor anchor : Option String) : Prop :=
  (latest = [] ∧ latestKeys = [] ∧ latestAnchor = anchor) ∨
  ∃ lo l k, latestAnchor = some k ∧ v.source.At k l ∧ lo ≤ l ∧
    v.source.Spans (fun t => t.raw ∈ latest) lo (l + 1) ∧
    (∀ key ∈ latestKeys, ∃ r, v.source.At key r ∧ lo ≤ r ∧ r ≤ l) ∧
    ∀ now e, newestTimestamp latest now = .ok e →
    ∀ t, v.source.entries[l]? = some t → t.timestamp ≤ e

structure CycleOk (v : View tx) (c : Cycle) : Prop where
  linked : v.Linked c.anchor
  recovering : c.incomplete = true → v.Recovering c.anchor c.window c.headAnchor
  shows : v.Shows c.latest c.latestKeys c.latestAnchor c.anchor
  blank : c.latest = [] → c.incomplete = true → c.headAnchor = c.anchor

/-- A cycle that has checkpointed its open window. -/
structure InRecovery (v : View tx) (c : Cycle) : Prop extends CycleOk v c where
  incomplete : c.incomplete = true
  stored : ∀ raw ∈ c.latest, raw ∈ v.handed

structure RecordOk (v : View tx) (r : CatchUpRecord) : Prop where
  linked : v.Linked r.anchorId
  recovering : r.catchUpIncomplete = true → v.Recovering r.anchorId (.ofPrior (some r)) r.headAnchor

/-- The cursor the next page is fetched at. -/
def Cursor (v : View tx) (c : Cycle) (offset : Nat) (e : Int) : Prop :=
  v.InRecovery c ∧ c.window.nextOffset = offset ∧ c.window.endTimestamp = some e

def AfterOk (v : View tx) (c : Cycle) : After → Prop
  | .done => True
  | .turn _ => v.InRecovery c
  | .page _ offset e => v.Cursor c offset e

/-- The page under way: the source may have grown since it was served. -/
def PageOk (v : View tx) (c : Cycle) (offset : Nat) (rows : List Json)
    (pageKeys : List String) : Prop :=
  ∃ e m limit, c.window.endTimestamp = some e ∧ m ≤ v.source.upTo e ∧
    (c.headAnchor = c.anchor ∨
      ∃ k, c.headAnchor = some k ∧ v.source.Scanned v.Handed (m - offset) c.window.windowOldest k) ∧
    rows = (v.source.page m offset limit).map SourceTrade.raw ∧
    pageKeys = (v.source.page m offset limit).map SourceTrade.key

def PcOk (v : View tx) : CatchUpPc → Prop
  | .idle _ => True
  | .selecting size _ => 1 ≤ size
  | .anchoring size _ prior =>
    1 ≤ size ∧ prior.any CatchUpRecord.catchUpIncomplete = false ∧ ∀ k₀, v.first = some k₀ → k₀ = ""
  | .awaitLatest b => 1 ≤ b.size ∧ v.Linked b.anchor ∧
    (b.reopened = true → v.Recovering b.anchor (.ofPrior b.prior) b.headAnchor)
  | .storeLatest c => v.CycleOk c
  | .checkpoint c _ after =>
    (∀ wallet reason, v.RecordOk (c.record wallet reason)) ∧ v.AfterOk c after
  | .turn c _ => v.InRecovery c
  | .awaitPage c _ offset e => v.Cursor c offset e
  | .storePage c _ offset rows pageKeys => v.InRecovery c ∧ v.PageOk c offset rows pageKeys

/-! ## The view only grows -/

structure Le (v v' : View tx) : Prop where
  source : v.source.Grows v'.source
  handed : ∀ raw ∈ v.handed, raw ∈ v'.handed
  first : v'.first = v.first

variable {v v' : View tx}

theorem Linked.le {anchor : Option String} (h : v.Linked anchor)
    (hle : v.Le v') : v'.Linked anchor := by
  intro k₀ hfirst hne
  rw [hle.first] at hfirst
  obtain ⟨k, hk, hreached⟩ := h k₀ hfirst hne
  exact ⟨k, hk, (hreached.grows hle.source).imp fun t => hle.handed t.raw⟩

theorem Recovering.le {anchor head : Option String} {w : Window}
    (h : v.Recovering anchor w head) (hle : v.Le v') :
    v'.Recovering anchor w head := by
  obtain ⟨hset, hw, hscan⟩ := h
  refine ⟨hset, hw, hscan.imp_right ?_⟩
  rintro ⟨k, e, hk, he, hscan⟩
  have hgrow := Log.upTo_mono hle.source e
  exact ⟨k, e, hk, he, ((hscan.grows hle.source).imp fun t => hle.handed t.raw).mono (by omega)⟩

theorem Shows.le {latest : List Json} {latestKeys : List String}
    {latestAnchor anchor : Option String} (h : v.Shows latest latestKeys latestAnchor anchor)
    (hle : v.Le v') :
    v'.Shows latest latestKeys latestAnchor anchor := by
  rcases h with h | ⟨lo, l, k, hk, hl, hlo, hspan, hkeys, hts⟩
  · exact .inl h
  · refine .inr ⟨lo, l, k, hk, hl.grows hle.source, hlo, hspan.grows hle.source hl.lt, ?_, ?_⟩
    · intro key hkey
      obtain ⟨r, hr, hr'⟩ := hkeys key hkey
      exact ⟨r, hr.grows hle.source, hr'⟩
    · intro now e he t ht
      rw [hle.source.getElem?_of_lt hl.lt] at ht
      exact hts now e he t ht

theorem CycleOk.le {c : Cycle} (h : v.CycleOk c) (hle : v.Le v') : v'.CycleOk c :=
  ⟨h.linked.le hle, fun hi => (h.recovering hi).le hle, h.shows.le hle, h.blank⟩

theorem InRecovery.le {c : Cycle} (h : v.InRecovery c) (hle : v.Le v') : v'.InRecovery c :=
  ⟨h.toCycleOk.le hle, h.incomplete, fun raw hraw => hle.handed raw (h.stored raw hraw)⟩

theorem RecordOk.le {r : CatchUpRecord} (h : v.RecordOk r) (hle : v.Le v') : v'.RecordOk r :=
  ⟨h.linked.le hle, fun hi => (h.recovering hi).le hle⟩

theorem Cursor.le {c : Cycle} {offset : Nat} {e : Int} (h : v.Cursor c offset e) (hle : v.Le v') :
    v'.Cursor c offset e :=
  ⟨h.1.le hle, h.2⟩

theorem PageOk.le {c : Cycle} {offset : Nat} {rows : List Json} {pageKeys : List String}
    (h : v.PageOk c offset rows pageKeys) (hle : v.Le v') : v'.PageOk c offset rows pageKeys := by
  obtain ⟨e, m, limit, he, hm, hscan, hrows, hkeys⟩ := h
  have hsame := Log.page_grows hle.source (le_trans hm (Log.upTo_le _ _)) offset limit
  refine ⟨e, m, limit, he, le_trans hm (Log.upTo_mono hle.source e), hscan.imp_right ?_, ?_, ?_⟩
  · rintro ⟨k, hk, hscan⟩
    exact ⟨k, hk, (hscan.grows hle.source).imp fun t => hle.handed t.raw⟩
  · rw [hsame, hrows]
  · rw [hsame, hkeys]

theorem PcOk.le {pc : CatchUpPc} (h : v.PcOk pc) (hle : v.Le v') : v'.PcOk pc := by
  cases pc with
  | idle result => trivial
  | selecting size budget => exact h
  | anchoring size budget prior =>
    obtain ⟨hsize, hprior, hfirst⟩ := h
    refine ⟨hsize, hprior, fun k₀ hk => hfirst k₀ ?_⟩
    rw [← hle.first]
    exact hk
  | awaitLatest b => exact ⟨h.1, h.2.1.le hle, fun hi => (h.2.2 hi).le hle⟩
  | storeLatest c => exact CycleOk.le h hle
  | checkpoint c reason after =>
    refine ⟨fun wallet reason => (h.1 wallet reason).le hle, ?_⟩
    cases after with
    | done => trivial
    | turn left => exact InRecovery.le h.2 hle
    | page left offset e => exact Cursor.le h.2 hle
  | turn c left => exact InRecovery.le h hle
  | awaitPage c left offset e => exact Cursor.le h hle
  | storePage c left offset rows pageKeys => exact ⟨h.1.le hle, h.2.le hle⟩

/-! ## Keys that are set, and keys on the newest page -/

theorem isSet_iff {key : Option String} : isSet key = true ↔ ∃ k, key = some k ∧ k ≠ "" := by
  cases key <;> simp [isSet]

theorem among_iff {key : Option String} {keys : List String} : among key keys = true ↔
    ∃ k, key = some k ∧ k ∈ keys := by
  cases key <;> simp [among]

theorem at_ne_empty {k : String} {r : Nat} (h : v.source.At k r) : k ≠ "" := by
  obtain ⟨t, -, rfl⟩ := h
  exact t.key_ne_empty

theorem Linked.isSet {anchor : Option String} (h : v.Linked anchor)
    {k₀ : String} (hfirst : v.first = some k₀) (hne : k₀ ≠ "") : isSet anchor = true := by
  obtain ⟨k, rfl, hreached⟩ := h k₀ hfirst hne
  refine isSet_iff.mpr ⟨k, rfl, ?_⟩
  rcases hreached with rfl | ⟨b, hb, -⟩
  · exact hne
  · exact at_ne_empty hb

theorem Recovering.isSet_head {anchor head : Option String} {w : Window}
    (h : v.Recovering anchor w head) :
    isSet head = true := by
  obtain ⟨hset, -, rfl | ⟨k, e, rfl, -, r, hr, -⟩⟩ := h
  · exact hset
  · exact isSet_iff.mpr ⟨k, rfl, at_ne_empty hr⟩

theorem Shows.blank {latestKeys : List String} {latestAnchor anchor : Option String}
    (h : v.Shows [] latestKeys latestAnchor anchor) : latestAnchor = anchor := by
  rcases h with ⟨-, -, h⟩ | ⟨lo, l, k, -, ⟨t, ht, -⟩, hlo, hspan, -⟩
  · exact h
  · exact (List.not_mem_nil (hspan l t hlo (by omega) ht)).elim

theorem CycleOk.latestAnchor_eq {c : Cycle} (h : v.CycleOk c) (hnil : c.latest = []) :
    c.latestAnchor = c.anchor := by
  have hshows := h.shows
  rw [hnil] at hshows
  exact hshows.blank

/-- Counting the rows of a page changes nothing that is known. -/
theorem CycleOk.count {c : Cycle} (h : v.CycleOk c) (r : Ingested) : v.CycleOk (c.count r) :=
  ⟨h.linked, h.recovering, h.shows, h.blank⟩

theorem InRecovery.count {c : Cycle} (h : v.InRecovery c) (r : Ingested) :
    v.InRecovery (c.count r) :=
  ⟨h.toCycleOk.count r, h.incomplete, h.stored⟩

/-- From an anchor on the newest page to its first row. -/
theorem Shows.linked {latest : List Json} {latestKeys : List String}
    {latestAnchor anchor seen : Option String}
    (h : v.Shows latest latestKeys latestAnchor anchor) (hstored : ∀ raw ∈ latest, raw ∈ v.handed)
    (hseen : v.Linked seen) (hmem : among seen latestKeys = true) : v.Linked latestAnchor := by
  intro k₀ hfirst hne
  obtain ⟨k, rfl, hreached⟩ := hseen k₀ hfirst hne
  obtain ⟨k', hk', hmem⟩ := among_iff.mp hmem
  obtain rfl := Option.some.inj hk'
  rcases h with ⟨-, rfl, -⟩ | ⟨lo, l, top, htop, hl, hlo, hspan, hkeys, -⟩
  · exact (List.not_mem_nil hmem).elim
  · obtain ⟨r, hr, hlor, hrl⟩ := hkeys k hmem
    exact ⟨top, htop, hreached.step hr hl
      ((hspan.imp fun t => hstored t.raw).mono (by omega) (le_refl _))⟩

/-! ## Checkpoints -/

theorem recordOk_open {c : Cycle} (hi : c.incomplete = true) (hlinked : v.Linked c.window.anchorId)
    (hrec : v.Recovering c.window.anchorId c.window c.headAnchor) (wallet : Wallet)
    (reason : String) :
    v.RecordOk (c.record wallet reason) := by
  constructor
  · simpa only [Cycle.record, hi, if_true] using hlinked
  · intro _
    simpa only [Cycle.record, Window.ofPrior, hi, if_true] using hrec

theorem recordOk_closed {c : Cycle} (hi : c.incomplete = false)
    (hlinked : v.Linked c.latestAnchor) (wallet : Wallet)
    (reason : String) : v.RecordOk (c.record wallet reason) := by
  constructor
  · simpa [Cycle.record, hi] using hlinked
  · intro h
    exact absurd (hi.symm.trans h) (by simp)

theorem InRecovery.recordOk {c : Cycle} (h : v.InRecovery c) (wallet : Wallet) (reason : String) :
    v.RecordOk (c.record wallet reason) := by
  have hrec := h.recovering h.incomplete
  refine recordOk_open h.incomplete ?_ ?_ wallet reason
  · rw [hrec.2.1]
    exact h.linked
  · rw [hrec.2.1]
    exact hrec

/-- The view once a checkpoint with this anchor is committed. -/
def after (v : View tx) (anchor : Option String) : View tx := { v with first := v.first.or anchor }

theorem Linked.after {anchor : Option String} (h : v.Linked anchor) :
    (v.after anchor).Linked anchor := by
  intro k₀ hfirst hne
  cases hv : v.first with
  | some k₁ =>
    simp only [View.after, hv, Option.some_or] at hfirst
    exact h k₀ (hv.trans hfirst) hne
  | none =>
    simp only [View.after, hv, Option.none_or] at hfirst
    exact ⟨k₀, hfirst, .refl _ _ k₀⟩

theorem InRecovery.after {c : Cycle} (h : v.InRecovery c) (wallet : Wallet) (reason : String) :
    (v.after (c.record wallet reason).anchorId).InRecovery c := by
  have hanchor : (c.record wallet reason).anchorId = c.anchor := by
    rw [← (h.recovering h.incomplete).2.1]
    simp only [Cycle.record, h.incomplete, if_true]
  rw [hanchor]
  exact ⟨⟨h.linked.after, h.recovering, h.shows, h.blank⟩, h.incomplete, h.stored⟩

/-- A window that starts at the first row of the newest page has all of it to scan. -/
theorem recovering_new {latest : List Json} {latestKeys : List String}
    {latestAnchor anchor start : Option String} {now : Time} {e : Int}
    (h : v.Shows latest latestKeys latestAnchor anchor) (hset : isSet start = true)
    (hblank : latest = [] → latestAnchor = start) (he : newestTimestamp latest now = .ok e) :
    v.Recovering start ⟨start, some e, 0, none⟩ latestAnchor := by
  refine ⟨hset, rfl, ?_⟩
  rcases h with ⟨hnil, -⟩ | ⟨lo, l, k, hk, hl, -, -, -, hts⟩
  · exact .inl (hblank hnil)
  · obtain ⟨t, ht, -⟩ := id hl
    have hlt := (Log.lt_upTo_iff ht).mpr (hts now e he t ht)
    exact .inr ⟨k, e, hk, rfl, Log.Scanned.start hl hlt⟩

/-! ## The code between two awaits -/

theorem gotLatest_ok {b : Baseline} {pc : CatchUpPc} (h : v.PcOk (.awaitLatest b))
    (hpc : gotLatest tx b (v.source.getTrades ⟨b.size, 0, none, none⟩) = .ok pc) : v.PcOk pc := by
  obtain ⟨hsize, hlinked, hrec⟩ := h
  rw [getTrades_latest] at hpc
  unfold gotLatest at hpc
  rw [keys_raw, firstKey_raw] at hpc
  obtain rfl := Except.ok.inj hpc
  have hlen := Log.length_page (le_refl v.source.entries.length) 0 b.size
  by_cases hn : v.source.entries.length = 0
  · -- an empty history: no head can have been recorded but the anchor itself
    have hnil : v.source.page v.source.entries.length 0 b.size = [] :=
    List.length_eq_zero_iff.mp (by omega)
    rw [hnil]
    refine ⟨hlinked, hrec, .inl ⟨rfl, rfl, rfl⟩, fun _ hi => ?_⟩
    obtain ⟨-, -, hhead | ⟨k, e, -, -, r, hr, -⟩⟩ := hrec hi
    · exact hhead
    · exact absurd hr.lt (by omega)
  · obtain ⟨t, ht⟩ : ∃ t, v.source.entries[v.source.entries.length - 1]? = some t :=
      ⟨_, List.getElem?_eq_getElem (by omega)⟩
    have hhead : (v.source.page v.source.entries.length 0 b.size).head? = some t := by
      rw [List.head?_eq_getElem?, Log.getElem?_page (le_refl _) (by omega) (by omega)]
      exact ht
    have hmem {x : SourceTrade tx} := Log.mem_page (L := v.source) (le_refl _) 0 b.size (x := x)
    refine ⟨hlinked, hrec, .inr ⟨v.source.entries.length - b.size,
      v.source.entries.length - 1, t.key, ?_, ⟨t, ht, rfl⟩, by omega, ?_, ?_, ?_⟩, ?_⟩
    · rw [hhead]
      rfl
    · intro r x hlo hhi hx
      exact List.mem_map_of_mem (hmem.mpr ⟨r, hx, by omega, by omega⟩)
    · intro key hkey
      obtain ⟨x, hx, rfl⟩ := List.mem_map.mp hkey
      obtain ⟨r, hr, hlo, hhi⟩ := hmem.mp hx
      exact ⟨r, ⟨x, hr, rfl⟩, by omega, by omega⟩
    · intro now e he x hx
      obtain rfl := Option.some.inj (ht.symm.trans hx)
      exact le_newestTimestamp he t (List.mem_of_mem_head? hhead)
    · intro hnil
      rw [List.map_eq_nil_iff.mp hnil] at hhead
      cases hhead

theorem moveHead_ok {c : Cycle} (h : v.CycleOk c) (hstored : ∀ raw ∈ c.latest, raw ∈ v.handed)
    (hi : c.incomplete = true) (hanchor : among c.anchor c.latestKeys = false) :
    v.InRecovery c.moveHead := by
  unfold Cycle.moveHead
  split
  · next hmoves =>
    rw [hi, Bool.not_true, Bool.false_or] at hmoves
    obtain ⟨k, hk, hmem⟩ := among_iff.mp hmoves
    obtain ⟨hset, hw, hscan⟩ := h.recovering hi
    refine ⟨⟨h.linked, fun _ => ⟨hset, hw, ?_⟩, h.shows, fun hnil _ => ?_⟩, hi, hstored⟩
    · rcases hscan with hsame | ⟨k', e, hk', he, hscan⟩
      · rw [hsame, hanchor] at hmoves
        cases hmoves
      · obtain rfl := Option.some.inj (hk.symm.trans hk')
        rcases h.shows with ⟨-, hnil, -⟩ | ⟨lo, l, top, htop, hl, -, hspan, hkeys, -⟩
        · rw [hnil] at hmem
          exact (List.not_mem_nil hmem).elim
        · obtain ⟨r, hr, hlo, -⟩ := hkeys k hmem
          exact .inr ⟨top, e, htop, he, hscan.lift hr (hspan.imp fun t => hstored t.raw) hlo hl⟩
    · exact h.latestAnchor_eq hnil
  · exact ⟨h, hi, hstored⟩

theorem storedLatest_ok {c : Cycle} {now : Time} {pc : CatchUpPc} (h : v.CycleOk c)
    (hstored : ∀ raw ∈ c.latest, raw ∈ v.handed)
    (hpc : storedLatest c now = .ok pc) : v.PcOk pc := by
  have hclosed : among c.anchor c.latestKeys = true ∨ isSet c.anchor = false →
      v.Linked c.latestAnchor := by
    rintro (hseen | hset)
    · exact h.shows.linked hstored h.linked hseen
    · intro k₀ hfirst hne
      exact absurd ((h.linked.isSet hfirst hne).symm.trans hset) (by simp)
  unfold storedLatest at hpc
  rw [Cycle.moveHead_eq] at hpc
  dsimp only at hpc
  split at hpc
  · next hlost =>
    -- the anchor has left the newest page
    simp only [Bool.and_eq_true, Bool.not_eq_true'] at hlost
    obtain ⟨⟨hi, hset⟩, hanchor⟩ := hlost
    obtain ⟨e, he, hpc⟩ := bind_ok hpc
    obtain rfl := Except.ok.inj hpc
    have hhead : c.moveHead.headAnchor = c.latestAnchor := by
      unfold Cycle.moveHead
      rw [hi]
      rfl
    have hrec := recovering_new h.shows hset h.latestAnchor_eq he
    have hin : v.InRecovery (Cycle.openWindow
        { c with headAnchor := c.moveHead.headAnchor } c.anchor e) := by
      refine ⟨⟨h.linked, fun _ => ?_, h.shows, fun hnil _ => ?_⟩, rfl, hstored⟩
      · show v.Recovering c.anchor ⟨c.anchor, some e, 0, none⟩ c.moveHead.headAnchor
        rw [hhead]
        exact hrec
      · exact hhead.trans (h.latestAnchor_eq hnil)
    exact ⟨hin.recordOk, hin⟩
  · next hkept =>
    split at hpc
    · next hstill =>
      simp only [Bool.and_eq_true, Bool.not_eq_true'] at hstill
      obtain rfl := Except.ok.inj hpc
      have hin := moveHead_ok h hstored hstill.1 hstill.2
      rw [Cycle.moveHead_eq] at hin
      exact ⟨hin.recordOk, hin⟩
    · next hdone =>
      have hlinked : v.Linked c.latestAnchor := by
        apply hclosed
        by_cases hanchor : among c.anchor c.latestKeys = true
        · exact .inl hanchor
        · right
          simp_all
      split at hpc
      · obtain rfl := Except.ok.inj hpc
        exact ⟨recordOk_closed rfl hlinked, trivial⟩
      · obtain rfl := Except.ok.inj hpc
        trivial

theorem takeTurn_ok {c : Cycle} {left : Nat} {wallet : Option Wallet}
    {pc : CatchUpPc} (h : v.InRecovery c)
    (hpc : takeTurn c left wallet = .ok pc) : v.PcOk pc := by
  unfold takeTurn at hpc
  split at hpc
  · cases hpc
  · split at hpc
    · obtain rfl := Except.ok.inj hpc
      exact ⟨h.recordOk, trivial⟩
    · split at hpc
      · split at hpc
        · obtain rfl := Except.ok.inj hpc
          exact ⟨h.recordOk, trivial⟩
        · next oldest hold =>
          cases he : c.endTimestamp with
          | error err => rw [he] at hpc; cases hpc
          | ok e =>
            rw [he] at hpc
            obtain rfl := Except.ok.inj hpc
            show v.PcOk (if _ then _ else _)
            split
            · exact ⟨h.recordOk, trivial⟩
            · have hin : v.InRecovery (c.roll oldest) := by
                refine ⟨⟨h.linked, fun hi => ?_, h.shows, h.blank⟩, h.incomplete, h.stored⟩
                obtain ⟨hset, hw, hscan⟩ := h.recovering hi
                refine ⟨hset, hw, hscan.imp_right ?_⟩
                rintro ⟨k, e', hk, -, hscan⟩
                rw [hold] at hscan
                refine ⟨k, oldest, hk, rfl, ?_⟩
                show v.source.Scanned v.Handed (v.source.upTo oldest - 0) c.window.windowOldest k
                rw [hold]
                exact hscan.roll
              exact ⟨hin.recordOk, hin, rfl, rfl⟩
      · cases he : c.endTimestamp with
        | error err => rw [he] at hpc; cases hpc
        | ok e =>
          rw [he] at hpc
          obtain rfl := Except.ok.inj hpc
          refine ⟨h, rfl, ?_⟩
          unfold Cycle.endTimestamp at he
          split at he
          · cases he
          · next e' hwin =>
            rw [hwin, Except.ok.inj he]

theorem gotPage_ok {c : Cycle} {left offset limit : Nat} {e : Int}
    {pageKeys : List String} (h : v.Cursor c offset e)
    (hkeys : keys tx (v.source.getTrades ⟨limit, offset, some 1, some e⟩) = .ok pageKeys) :
    v.PcOk (.storePage c left offset
      (v.source.getTrades ⟨limit, offset, some 1, some e⟩) pageKeys) := by
  obtain ⟨hin, hoffset, hend⟩ := h
  rw [getTrades_page] at hkeys ⊢
  rw [keys_raw] at hkeys
  refine ⟨hin, e, v.source.upTo e, limit, hend, le_refl _, ?_, rfl, (Except.ok.inj hkeys).symm⟩
  refine (hin.recovering hin.incomplete).2.2.imp_right ?_
  rintro ⟨k, e', hk, he', hscan⟩
  obtain rfl := Option.some.inj (hend.symm.trans he')
  rw [hoffset] at hscan
  exact ⟨k, hk, hscan⟩

/-- A page below what has been scanned, with its oldest timestamp. -/
theorem scanned_page {m offset limit : Nat} {oldest : Option Int} {k : String}
    (hm : m ≤ v.source.entries.length)
    (hrows : ∀ raw ∈ (v.source.page m offset limit).map SourceTrade.raw, raw ∈ v.handed)
    (h : v.source.Scanned v.Handed (m - offset) oldest k) :
      v.source.Scanned v.Handed (m - offset - limit)
      (((v.source.page m offset limit).map SourceTrade.timestamp).min?.or oldest) k := by
  refine h.page hm (fun x hx => hrows _ (List.mem_map_of_mem hx)) ?_
  cases hmin : ((v.source.page m offset limit).map SourceTrade.timestamp).min? with
  | none => exact .inl rfl
  | some w =>
    obtain ⟨x, hx, rfl⟩ := List.mem_map.mp (List.min?_eq_some_iff.mp hmin).1
    exact .inr ⟨x, hx, rfl⟩

/-- A window that has come down to its anchor is connected: its head is linked. -/
theorem linked_head {anchor head : Option String} {m r : Nat} {oldest : Option Int}
    {a : String} (h : v.Linked anchor) (ha : anchor = some a) (hr : v.source.At a r)
    (hm : m ≤ r)
    (hscan : head = anchor ∨ ∃ k, head = some k ∧ v.source.Scanned v.Handed m oldest k) :
    v.Linked head := by
  rcases hscan with hsame | ⟨k, hk, hscan⟩
  · rw [hsame]
    exact h
  · intro k₀ hfirst hne
    obtain ⟨k', hk', hreached⟩ := h k₀ hfirst hne
    obtain rfl := Option.some.inj (ha.symm.trans hk')
    exact ⟨k, hk, hscan.reached hreached hr hm⟩

theorem storedPage_ok {c : Cycle} {left offset : Nat} {rows : List Json}
    {pageKeys : List String} {now : Time} {pc : CatchUpPc} (h : v.InRecovery c)
    (hpage : v.PageOk c offset rows pageKeys) (hrows : ∀ raw ∈ rows, raw ∈ v.handed)
    (hpc : storedPage c left offset rows pageKeys now = .ok pc) : v.PcOk pc := by
  obtain ⟨e, m, limit, hend, hm, hscan, rfl, rfl⟩ := hpage
  have hmlen := le_trans hm (Log.upTo_le _ _)
  have hrec := h.recovering h.incomplete
  -- what has been scanned, this page included
  have hscan : c.headAnchor = c.anchor ∨ ∃ k, c.headAnchor = some k ∧
      v.source.Scanned v.Handed (m - offset - limit)
        (((v.source.page m offset limit).map SourceTrade.timestamp).min?.or
          c.window.windowOldest) k := by
    refine hscan.imp_right ?_
    rintro ⟨k, hk, hscan⟩
    exact ⟨k, hk, scanned_page hmlen hrows hscan⟩
  unfold storedPage at hpc
  rw [times_raw] at hpc
  change (if _ then _ else _) = _ at hpc
  split at hpc
  · next hseen =>
    obtain ⟨a, ha, hmem⟩ := among_iff.mp hseen
    obtain ⟨x, hx, rfl⟩ := List.mem_map.mp hmem
    obtain ⟨r, hr, hlo, -⟩ := (Log.mem_page hmlen offset limit).mp hx
    have hlinked : v.Linked c.headAnchor := linked_head h.linked ha ⟨x, hr, rfl⟩ hlo hscan
    split at hpc
    · obtain ⟨e', he', hpc⟩ := bind_ok hpc
      obtain rfl := Except.ok.inj hpc
      refine ⟨recordOk_open rfl hlinked ?_, trivial⟩
      refine recovering_new h.shows hrec.isSet_head ?_ he'
      intro hnil
      exact (h.latestAnchor_eq hnil).trans (h.blank hnil h.incomplete).symm
    · next hgap =>
      obtain rfl := Except.ok.inj hpc
      refine ⟨recordOk_closed rfl ?_, trivial⟩
      refine h.shows.linked h.stored hlinked ?_
      simpa [hrec.isSet_head] using hgap
  · have hlen := Log.length_page hmlen offset limit
    have hin : v.InRecovery { c with window := { c.window with
        nextOffset := offset + ((v.source.page m offset limit).map SourceTrade.raw).length
        windowOldest := ((v.source.page m offset limit).map SourceTrade.timestamp).min?.or
          c.window.windowOldest } } := by
      refine ⟨⟨h.linked, fun _ => ⟨hrec.1, hrec.2.1, hscan.imp_right ?_⟩, h.shows, h.blank⟩,
        h.incomplete, h.stored⟩
      rintro ⟨k, hk, hscan⟩
      refine ⟨k, e, hk, hend, hscan.mono ?_⟩
      show m - offset - limit ≤
        v.source.upTo e - (offset + ((v.source.page m offset limit).map SourceTrade.raw).length)
      rw [List.length_map, hlen]
      omega
    split at hpc
    · obtain rfl := Except.ok.inj hpc
      exact ⟨hin.recordOk, trivial⟩
    · obtain rfl := Except.ok.inj hpc
      exact ⟨hin.recordOk, hin⟩

theorem resume_ok {c : Cycle} {after : After} (h : v.AfterOk c after) :
    v.PcOk (resume c after) := by
  unfold resume
  split
  · trivial
  · trivial
  · exact h
  · exact h

end View

end Polycopy
