import Polycopy.Ingestion.Continuity
import Polycopy.Ingestion.Idempotent

/-!
# Cycles without an anchored checkpoint

Before a checkpoint has an anchor, a cycle takes the newest trade stored, and the
newest page is stored before the first checkpoint is written.  Nothing is lost where
that page reaches back to the anchor (`Cycle.LeavesNoGap`).  Where it does not:

* a cycle that stops between the two leaves the next one an anchor on that page;
* a cycle without an anchor opens no window.

`View.Waiting` is what such a cycle knows, `View.FirstPage` what it knows in between.
-/

namespace Polycopy

open Py Feed Runs

variable {tx : Text}

/-! ## The newest trade stored -/

/-- A fold that keeps what it has or takes the next. -/
theorem foldl_keeps {α : Type} {f : Option α → α → Option α}
    (hf : ∀ b t, f b t = b ∨ f b t = some t) :
    ∀ (l : List α) (b : Option α), l.foldl f b = b ∨ ∃ t ∈ l, l.foldl f b = some t := by
  intro l
  induction l with
  | nil => exact fun b => .inl rfl
  | cons x l ih =>
    intro b
    rw [List.foldl_cons]
    rcases ih (f b x) with hsame | ⟨t, ht, hlast⟩
    · rw [hsame]
      exact (hf b x).imp id fun hx => ⟨x, List.mem_cons_self, hx⟩
    · exact .inr ⟨t, List.mem_cons_of_mem _ ht, hlast⟩

theorem newestTrade_append {db db' : Db} {new : List Trade}
    (h : db'.trades = db.trades ++ new) (walletId : Nat) :
    db'.newestTrade walletId = db.newestTrade walletId ∨
      ∃ t ∈ new, db'.newestTrade walletId = some t.polymarketTradeId := by
  unfold Db.newestTrade
  dsimp only
  rw [h, List.filter_append, List.foldl_append]
  refine (foldl_keeps ?_ _ _).imp (congrArg _) ?_
  · intro b t
    cases b with
    | none => exact .inr rfl
    | some b =>
      dsimp only
      split
      · exact .inr rfl
      · exact .inl rfl
  · rintro ⟨t, ht, hlast⟩
    refine ⟨t, (List.mem_filter.mp ht).1, ?_⟩
    rw [hlast]
    rfl

theorem writeRows_new (tx : Text) (env : PageEnv) (fetchMetadata : Bool) (walletId : Nat) :
    ∀ (fresh : List (String × Json)) (acc : Ingested), ∃ new,
      (fresh.foldl (writeRow tx env fetchMetadata walletId) acc).db.trades = acc.db.trades ++ new ∧
      ∀ t ∈ new, ∃ kv ∈ fresh, t.polymarketTradeId = kv.1 := by
  intro fresh
  induction fresh with
  | nil => exact fun acc => ⟨[], (List.append_nil _).symm, fun t ht => (List.not_mem_nil ht).elim⟩
  | cons kv fresh ih =>
    intro acc
    obtain ⟨new, hnew, hkeys⟩ := ih (writeRow tx env fetchMetadata walletId acc kv)
    have hrest : ∀ t ∈ new, ∃ kv' ∈ kv :: fresh, t.polymarketTradeId = kv'.1 := by
      intro t ht
      obtain ⟨kv', hkv', hkey⟩ := hkeys t ht
      exact ⟨kv', List.mem_cons_of_mem _ hkv', hkey⟩
    rw [List.foldl_cons, hnew]
    unfold writeRow
    split
    · next db hins =>
      obtain ⟨markets, t, hkey, -, rfl⟩ := insertTrade_ok hins
      refine ⟨t :: new, List.append_assoc _ _ _, fun t' ht' => ?_⟩
      rcases List.mem_cons.mp ht' with rfl | ht'
      · exact ⟨kv, List.mem_cons_self, hkey⟩
      · exact hrest t' ht'
    · exact ⟨new, rfl, hrest⟩

/-- The trades a call adds are rows of its page. -/
theorem ingestTradeRows_new {env : PageEnv} {fetchMetadata : Bool}
    {walletId : Nat} {rows : List Json} {db : Db} {r : Ingested}
    (h : ingestTradeRows tx env fetchMetadata walletId rows db = .ok r) :
    ∃ new, r.db.trades = db.trades ++ new ∧ ∀ t ∈ new, ∃ raw ∈ rows,
    canonicalTradeId tx raw = .ok t.polymarketTradeId := by
  obtain ⟨⟨keyed, quarantined⟩, hkeyed, h⟩ := bind_ok h
  obtain rfl := Except.ok.inj h
  obtain ⟨new, hnew, hkeys⟩ :=
    writeRows_new tx env fetchMetadata walletId (keyed.filter fun kv => !db.hasTrade kv.1)
    ⟨db, 0, quarantined⟩
  refine ⟨new, hnew, fun t ht => ?_⟩
  obtain ⟨kv, hkv, hkey⟩ := hkeys t ht
  rcases (keyRows_page hkeyed).source kv (List.mem_filter.mp hkv).1 with hnone | ⟨hrow, hid⟩
  · exact (List.not_mem_nil hnone).elim
  · rw [hkey]
    exact ⟨kv.2, hrow, hid⟩

/-- A row with an identity is among the keys of its page. -/
theorem keys_mem : ∀ {rows : List Json} {ks : List String},
    keys tx rows = .ok ks → ∀ raw ∈ rows, ∀ k,
    canonicalTradeId tx raw = .ok k → k ∈ ks := by
  intro rows
  induction rows with
  | nil => exact fun _ raw hraw => (List.not_mem_nil hraw).elim
  | cons row rows ih =>
    intro ks h raw hraw k hk
    unfold keys at h
    split at h
    · next key hkey =>
      obtain ⟨rest, hrest, rfl⟩ := map_ok h
      rcases List.mem_cons.mp hraw with rfl | hraw
      · obtain rfl := Except.ok.inj (hkey.symm.trans hk)
        exact List.mem_cons_self
      · exact List.mem_cons_of_mem _ (ih hrest raw hraw k hk)
    · next e hkey =>
      split at h
      · rcases List.mem_cons.mp hraw with rfl | hraw
        · rw [hkey] at hk
          cases hk
        · exact ih h raw hraw k hk
      · cases h

/-! ## Gaps -/

/-- The entry at rank `i` is newer than a key; every entry is newer than none. -/
def NewerThan (source : Source tx) (key : Option String) (i : Nat) : Prop :=
  ∀ k r, key = some k → source.At k r → r < i

/-- The newest page leaves out no trade newer than the anchor and not newer than its first row. -/
def Cycle.LeavesNoGap (source : Source tx) (c : Cycle) : Prop :=
  ∀ i t, source.entries[i]? = some t → NewerThan source c.anchor i →
    (∃ k l, c.latestAnchor = some k ∧ source.At k l ∧ i ≤ l) → t.raw ∈ c.latest

/-! ## What a cycle without an anchored checkpoint knows -/

namespace View

variable {v v' : View tx} {lo : Nat} {newest : Option String}

/-- All trades from rank `lo` up to the key have been handed over. -/
def Followed (v : View tx) (lo : Nat) (key : Option String) : Prop :=
  ∀ k, key = some k → ∃ a, v.source.At k a ∧ v.source.Spans v.Handed lo (a + 1)

/-- The newest page is stored, the first checkpoint is not written. -/
structure FirstPage (v : View tx) (lo : Nat) (newest : Option String) (c : Cycle) : Prop where
  followed : v.Followed lo c.anchor
  stored : ∀ raw ∈ c.latest, raw ∈ v.handed
  shows : v.Shows c.latest c.latestKeys c.latestAnchor c.anchor
  window : c.incomplete = true → c.window.anchorId = c.anchor
  newest : newest = c.anchor ∨ ∃ k ∈ c.latestKeys, newest = some k

def Waiting (v : View tx) (lo : Nat) (newest : Option String) : CatchUpPc → Prop
  | .idle _ => v.Followed lo newest
  | .selecting _ _ => v.Followed lo newest
  | .anchoring _ _ _ => v.Followed lo newest
  | .awaitLatest b => v.Followed lo newest ∧ b.anchor = newest ∧ b.reopened = false
  | .storeLatest c => v.Followed lo newest ∧ c.anchor = newest ∧ c.incomplete = false ∧
    keys tx c.latest = .ok c.latestKeys ∧ ∀ now, ∃ e, newestTimestamp c.latest now = .ok e
  | .checkpoint c _ after => v.FirstPage lo newest c ∧ (c.incomplete = false → after = .done)
  | _ => False

theorem Followed.grows {key : Option String} (h : v.Followed lo key)
    (hsource : v.source.Grows v'.source)
    (hhanded : ∀ raw ∈ v.handed, raw ∈ v'.handed) : v'.Followed lo key := by
  intro k hk
  obtain ⟨a, ha, hspan⟩ := h k hk
  exact ⟨a, ha.grows hsource, (hspan.grows hsource ha.lt).imp fun t => hhanded t.raw⟩

theorem Waiting.le {pc : CatchUpPc} (h : v.Waiting lo newest pc) (hle : v.Le v') :
    v'.Waiting lo newest pc := by
  have hfollowed : ∀ {key}, v.Followed lo key → v'.Followed lo key :=
    fun h => h.grows hle.source hle.handed
  cases pc with
  | idle result => exact hfollowed h
  | selecting size budget => exact hfollowed h
  | anchoring size budget prior => exact hfollowed h
  | awaitLatest b => exact ⟨hfollowed h.1, h.2⟩
  | storeLatest c => exact ⟨hfollowed h.1, h.2⟩
  | checkpoint c reason after =>
    obtain ⟨⟨hanchor, hstored, hshows, hwindow, hnewest⟩, hafter⟩ := h
    exact ⟨⟨hfollowed hanchor, fun raw hraw => hle.handed raw (hstored raw hraw),
      hshows.le hle, hwindow, hnewest⟩, hafter⟩
  | turn c left => exact h.elim
  | awaitPage c left offset e => exact h.elim
  | storePage c left offset rows pageKeys => exact h.elim

/-- A page without a gap continues what is followed, whichever of its rows
comes to be the anchor. -/
theorem FirstPage.reaches {c : Cycle} (h : v.FirstPage lo newest c)
    (hgap : c.LeavesNoGap v.source) :
    v.Followed lo c.latestAnchor ∧ v.Followed lo newest := by
  rcases h.shows with ⟨-, hkeys, hanchor⟩ | ⟨bottom, l, top, htop, hl, -, -, hkeys, -⟩
  · refine ⟨hanchor ▸ h.followed, ?_⟩
    rcases h.newest with hsame | ⟨k, hk, -⟩
    · exact hsame ▸ h.followed
    · rw [hkeys] at hk
      exact (List.not_mem_nil hk).elim
  · have hspan : v.source.Spans v.Handed lo (l + 1) := by
      intro i t hlo hi ht
      by_cases hnewer : NewerThan v.source c.anchor i
      · exact h.stored _ (hgap i t ht hnewer ⟨top, l, htop, hl, by omega⟩)
      · unfold NewerThan at hnewer
        push Not at hnewer
        obtain ⟨k, r, hk, hr, hir⟩ := hnewer
        obtain ⟨a, ha, hfollowed⟩ := h.followed k hk
        obtain rfl := ha.unique hr
        exact hfollowed i t hlo (by omega) ht
    constructor
    · intro k hk
      obtain rfl := Option.some.inj (htop.symm.trans hk)
      exact ⟨l, hl, hspan⟩
    · rcases h.newest with hsame | ⟨k, hk, hnewest⟩
      · exact hsame ▸ h.followed
      · intro k' hk'
        obtain rfl := Option.some.inj (hnewest.symm.trans hk')
        obtain ⟨r, hr, -, hrl⟩ := hkeys k hk
        exact ⟨r, hr, hspan.mono (Nat.le_refl lo) (by omega)⟩

/-- There is none where the first row is the anchor. -/
theorem leavesNoGap_same {source : Source tx} {c : Cycle} (h : c.latestAnchor = c.anchor) :
    c.LeavesNoGap source := by
  rintro i t - hnewer ⟨k, l, hk, hl, hil⟩
  have hlt := hnewer k l (h ▸ hk) hl
  omega

/-- The first page is followed by a checkpoint, unless there is nothing new on it. -/
theorem FirstPage.storedLatest {c : Cycle} (h : v.FirstPage lo newest c)
    (hclosed : c.incomplete = false) {now : Time}
    (htime : ∃ e, newestTimestamp c.latest now = .ok e) :
    ∃ pc, storedLatest c now = .ok pc ∧ v.Waiting lo newest pc := by
  obtain ⟨e, he⟩ := htime
  have hpage : ∀ {c' : Cycle}, c'.toBaseline = c.toBaseline → c'.latest = c.latest →
      c'.latestKeys = c.latestKeys →
      c'.latestAnchor = c.latestAnchor → (c'.incomplete = true → c'.window.anchorId = c'.anchor) →
      v.FirstPage lo newest c' := by
    intro c' hbase hlatest hkeys htop hwindow
    refine ⟨?_, ?_, ?_, hwindow, ?_⟩
    · rw [hbase]
      exact h.followed
    · rw [hlatest]
      exact h.stored
    · rw [hlatest, hkeys, htop, hbase]
      exact h.shows
    · rw [hkeys, hbase]
      exact h.newest
  unfold Polycopy.storedLatest
  rw [Cycle.moveHead_eq]
  dsimp only
  split
  · rw [he]
    exact ⟨_, rfl, hpage rfl rfl rfl rfl fun _ => rfl, nofun⟩
  · split
    · next hopen =>
      rw [hclosed, Bool.false_and] at hopen
      cases hopen
    · split
      · exact ⟨_, rfl, hpage rfl rfl rfl rfl nofun, fun _ => rfl⟩
      · next hsame =>
        rw [Bool.or_eq_true, not_or, decide_eq_true_eq, not_not] at hsame
        exact ⟨_, rfl, (h.reaches (leavesNoGap_same hsame.2)).2⟩

end View

end Polycopy
