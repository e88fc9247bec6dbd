import Mathlib.Order.Lattice
import Mathlib.Data.List.Basic
import Mathlib.Data.List.Nodup

/-!
# An append-only log read newest first, a page at a time

A log is its entries, oldest first, with timestamps that never fall and keys
that never repeat; it grows at the newest end only.  Entries are named by their
rank from the oldest, which growth does not move, while an offset counts from
the newest and moves with every arrival.

    Log.upTo e             how many entries have a timestamp of at most `e`
    Log.page m off lim     after the newest `off` of the first `m`, `lim` entries
    Log.Spans P lo hi      `P` of every entry of rank `lo … hi - 1`
    Log.Reached P k₀ k     `P` of every entry after `k₀` up to `k`
    Log.Covered P m w n    `P` of every entry from rank `m` up to `n`, and of
                           every entry below `n` that is younger than `w`
    Log.Scanned P m w k    the same of the entries up to the one with key `k`
    Log.above lo           the entries with a timestamp of at least `lo`
    Log.level e            how many entries have the timestamp `e`
    Log.rank k             the rank of the entry with key `k`

A reader that pages backwards below a frozen timestamp keeps `Covered` whatever
arrives meanwhile; once it meets an older key it has `Reached` the newer one.
-/

namespace Feed

variable {α κ β : Type} [LinearOrder β] {key : α → κ} {ts : α → β}

structure Log (key : α → κ) (ts : α → β) where
  entries : List α
  ordered : entries.Pairwise fun x y => ts x ≤ ts y
  distinct : (entries.map key).Nodup

namespace Log

/-- Growth at the newest end. -/
def Grows (L M : Log key ts) : Prop := L.entries <+: M.entries

def At (L : Log key ts) (k : κ) (r : Nat) : Prop := ∃ x, L.entries[r]? = some x ∧ key x = k

def upTo (L : Log key ts) (e : β) : Nat := (L.entries.filter fun x => ts x ≤ e).length

def page (L : Log key ts) (m offset limit : Nat) : List α :=
  ((L.entries.take m).reverse.drop offset).take limit

def Spans (L : Log key ts) (P : α → Prop) (lo hi : Nat) : Prop :=
  ∀ r x, lo ≤ r → r < hi → L.entries[r]? = some x → P x

variable {L M : Log key ts} {P Q : α → Prop}

/-! ## Ranks -/

theorem Grows.refl (L : Log key ts) : L.Grows L := List.prefix_refl _

theorem Grows.getElem? (h : L.Grows M) {r : Nat} {x : α} (hx : L.entries[r]? = some x) :
    M.entries[r]? = some x := by
  obtain ⟨new, hnew⟩ := h
  rw [← hnew, List.getElem?_append_left (List.getElem?_eq_some_iff.mp hx).1]
  exact hx

/-- Below its own length a log keeps what it has. -/
theorem Grows.getElem?_of_lt (h : L.Grows M) {r : Nat} (hr : r < L.entries.length) :
    M.entries[r]? = L.entries[r]? := by
  obtain ⟨new, hnew⟩ := h
  rw [← hnew, List.getElem?_append_left hr]

theorem At.lt {k : κ} {r : Nat} (h : L.At k r) : r < L.entries.length := by
  obtain ⟨x, hx, -⟩ := h
  exact (List.getElem?_eq_some_iff.mp hx).1

theorem At.grows {k : κ} {r : Nat} (h : L.At k r) (hg : L.Grows M) : M.At k r := by
  obtain ⟨x, hx, hk⟩ := h
  exact ⟨x, hg.getElem? hx, hk⟩

theorem At.unique {k : κ} {r r' : Nat} (h : L.At k r) (h' : L.At k r') : r = r' := by
  obtain ⟨x, hx, hk⟩ := h
  obtain ⟨y, hy, hk'⟩ := h'
  have hkx : (L.entries.map key)[r]? = some k := by rw [List.getElem?_map, hx, Option.map_some, hk]
  have hky : (L.entries.map key)[r']? = some k := by
    rw [List.getElem?_map, hy, Option.map_some, hk']
  exact (List.getElem?_inj (List.getElem?_eq_some_iff.mp hkx).1 L.distinct).mp (hkx.trans hky.symm)

theorem ts_le {r r' : Nat} {x y : α} (hx : L.entries[r]? = some x)
    (hy : L.entries[r']? = some y) (h : r ≤ r') :
    ts x ≤ ts y := by
  obtain ⟨hr, rfl⟩ := List.getElem?_eq_some_iff.mp hx
  obtain ⟨hr', rfl⟩ := List.getElem?_eq_some_iff.mp hy
  rcases Nat.eq_or_lt_of_le h with rfl | hlt
  · exact le_refl _
  · exact List.pairwise_iff_getElem.mp L.ordered r r' hr hr' hlt

def rank [BEq κ] (L : Log key ts) (k : κ) : Nat := (L.entries.map key).idxOf k

theorem At.rank [BEq κ] [LawfulBEq κ] {k : κ} {r : Nat} (h : L.At k r) : L.rank k = r := by
  obtain ⟨x, hx, rfl⟩ := h
  obtain ⟨hr, rfl⟩ := List.getElem?_eq_some_iff.mp hx
  have hlen : r < (L.entries.map key).length := by rwa [List.length_map]
  have hkey : (L.entries.map key)[r] = key L.entries[r] := List.getElem_map key
  unfold Log.rank
  rw [← hkey]
  exact L.distinct.idxOf_getElem r hlen

/-! ## Entries up to a timestamp -/

/-- They are the oldest ones. -/
theorem filter_eq_take_length (e : β) : ∀ {l : List α}, (l.Pairwise fun x y => ts x ≤ ts y) →
    (l.filter fun x => ts x ≤ e) = l.take (l.filter fun x => ts x ≤ e).length := by
  intro l hord
  induction l with
  | nil => rfl
  | cons x xs ih =>
    obtain ⟨hx, hxs⟩ := List.pairwise_cons.mp hord
    by_cases h : ts x ≤ e
    · rw [List.filter_cons_of_pos (by simpa using h), List.length_cons,
        List.take_succ_cons, ← ih hxs]
    · have hnone : (xs.filter fun y => ts y ≤ e) = [] := by
        rw [List.filter_eq_nil_iff]
        intro y hy hle
        exact h (le_trans (hx y hy) (by simpa using hle))
      rw [List.filter_cons_of_neg (by simpa using h), hnone]
      rfl

theorem filter_eq_take (L : Log key ts) (e : β) :
    (L.entries.filter fun x => ts x ≤ e) = L.entries.take (L.upTo e) :=
  filter_eq_take_length e L.ordered

theorem upTo_le (L : Log key ts) (e : β) : L.upTo e ≤ L.entries.length := List.length_filter_le _ _

theorem lt_upTo_iff {r : Nat} {x : α} {e : β} (hx : L.entries[r]? = some x) :
    r < L.upTo e ↔ ts x ≤ e := by
  constructor
  · intro hr
    have hmem : x ∈ L.entries.take (L.upTo e) := by
      apply List.mem_of_getElem? (i := r)
      rw [List.getElem?_take_of_lt hr]
      exact hx
    rw [← filter_eq_take] at hmem
    simpa using (List.mem_filter.mp hmem).2
  · intro hle
    have hmem : x ∈ L.entries.take (L.upTo e) := by
      rw [← filter_eq_take]
      exact List.mem_filter.mpr ⟨List.mem_of_getElem? hx, by simpa using hle⟩
    obtain ⟨r', hr', hx'⟩ := List.getElem_of_mem hmem
    rw [List.length_take] at hr'
    rw [List.getElem_take] at hx'
    have hat : L.At (key x) r' := ⟨x, by rw [List.getElem?_eq_some_iff]; exact ⟨by omega, hx'⟩, rfl⟩
    have := At.unique ⟨x, hx, rfl⟩ hat
    omega

/-- An entry that falls out counts. -/
theorem upTo_lt_upTo {r : Nat} {x : α} {e e' : β} (hx : L.entries[r]? = some x)
    (hlt : e < ts x) (hle : ts x ≤ e') :
    L.upTo e < L.upTo e' := by
  have hin : r < L.upTo e' := (lt_upTo_iff hx).mpr hle
  have hout : ¬ r < L.upTo e := fun h => absurd ((lt_upTo_iff hx).mp h) (not_le.mpr hlt)
  omega

theorem upTo_mono (h : L.Grows M) (e : β) : L.upTo e ≤ M.upTo e := by
  obtain ⟨new, hnew⟩ := h
  unfold upTo
  rw [← hnew, List.filter_append, List.length_append]
  omega

/-! ## Entries of one timestamp -/

def level (L : Log key ts) (e : β) : Nat := (L.entries.filter fun x => ts x = e).length

theorem level_mono (h : L.Grows M) (e : β) : L.level e ≤ M.level e :=
  (h.filter _).length_le

/-- From an entry no older than `e` on, everything up to `e` has the timestamp `e`. -/
theorem sub_le_level {r : Nat} {x : α} {e : β} (hx : L.entries[r]? = some x) (h : e ≤ ts x) :
    L.upTo e - r ≤ L.level e := by
  have hall : ((L.entries.take (L.upTo e)).drop r).filter (fun y => ts y = e) =
      (L.entries.take (L.upTo e)).drop r := by
    refine List.filter_eq_self.mpr fun y hy => decide_eq_true ?_
    obtain ⟨i, hi⟩ := List.getElem?_of_mem hy
    rw [List.getElem?_drop] at hi
    have hlt := (List.getElem?_eq_some_iff.mp hi).1
    rw [List.length_take] at hlt
    rw [List.getElem?_take_of_lt (by omega)] at hi
    exact le_antisymm ((lt_upTo_iff hi).mp (by omega)) (le_trans h (ts_le hx hi (by omega)))
  have hsub : ((L.entries.take (L.upTo e)).drop r).Sublist L.entries :=
    (List.drop_sublist r _).trans (List.take_sublist _ _)
  have hlen : ((L.entries.take (L.upTo e)).drop r).length = L.upTo e - r := by
    rw [List.length_drop, List.length_take, Nat.min_eq_left (upTo_le L e)]
  rw [← hlen, ← hall]
  exact (hsub.filter _).length_le

/-! ## Entries from a timestamp on -/

def above (L : Log key ts) (lo : β) : Log key ts where
  entries := L.entries.filter fun x => lo ≤ ts x
  ordered := L.ordered.filter _
  distinct := L.distinct.sublist (List.filter_sublist.map key)

theorem Grows.above (h : L.Grows M) (lo : β) : (L.above lo).Grows (M.above lo) := h.filter _

theorem mem_above {lo : β} {x : α} : x ∈ (L.above lo).entries ↔ x ∈ L.entries ∧ lo ≤ ts x := by
  unfold above
  rw [List.mem_filter, decide_eq_true_eq]

/-! ## Pages -/

theorem page_grows (h : L.Grows M) {m : Nat} (hm : m ≤ L.entries.length) (offset limit : Nat) :
    M.page m offset limit = L.page m offset limit := by
  obtain ⟨new, hnew⟩ := h
  unfold page
  rw [← hnew, List.take_append_of_le_length hm]

theorem length_page {m : Nat} (hm : m ≤ L.entries.length) (offset limit : Nat) :
    (L.page m offset limit).length = min limit (m - offset) := by
  unfold page
  rw [List.length_take, List.length_drop, List.length_reverse, List.length_take, Nat.min_eq_left hm]

/-- The entry at place `i` of a page. -/
theorem getElem?_page {m offset limit i : Nat} (hm : m ≤ L.entries.length)
    (hi : i < limit) (h : offset + i < m) :
    (L.page m offset limit)[i]? = L.entries[m - 1 - (offset + i)]? := by
  unfold page
  rw [List.getElem?_take_of_lt hi, List.getElem?_drop,
    List.getElem?_reverse (by simp; omega), List.length_take,
    Nat.min_eq_left hm, List.getElem?_take_of_lt (by omega)]

theorem mem_page {m : Nat} (hm : m ≤ L.entries.length) (offset limit : Nat) {x : α} :
    x ∈ L.page m offset limit ↔ ∃ r, L.entries[r]? = some x ∧
    m - offset - limit ≤ r ∧ r < m - offset := by
  have hlen := length_page hm offset limit
  constructor
  · intro h
    obtain ⟨i, hi⟩ := List.getElem?_of_mem h
    have hlt := (List.getElem?_eq_some_iff.mp hi).1
    rw [getElem?_page hm (by omega) (by omega)] at hi
    exact ⟨_, hi, by omega, by omega⟩
  · rintro ⟨r, hr, hlo, hhi⟩
    apply List.mem_of_getElem? (i := m - 1 - offset - r)
    rw [getElem?_page hm (by omega) (by omega), ← hr]
    congr 1
    omega

/-- A key below the offset that is not on the page is below the page, which then is full. -/
theorem At.below_page {k : κ} {a m offset : Nat} (limit : Nat) (h : L.At k a)
    (hm : m ≤ L.entries.length) (hin : a + offset < m)
    (hmiss : k ∉ (L.page m offset limit).map key) : a + offset + limit < m := by
  obtain ⟨x, hx, rfl⟩ := h
  by_contra hle
  exact hmiss (List.mem_map_of_mem ((mem_page hm offset limit).mpr ⟨a, hx, by omega, by omega⟩))

/-- The last entry of a full page is its oldest. -/
theorem oldest_page {m offset limit : Nat} (hm : m ≤ L.entries.length)
    (hfull : offset + limit ≤ m) (hpos : 0 < limit) :
    ∃ x, L.entries[m - offset - limit]? = some x ∧ x ∈ L.page m offset limit ∧
      ∀ y ∈ L.page m offset limit, ts x ≤ ts y := by
  have hlt : m - offset - limit < L.entries.length := by omega
  have hx := List.getElem?_eq_getElem hlt
  refine ⟨_, hx, (mem_page hm offset limit).mpr ⟨_, hx, by omega, by omega⟩, fun y hy => ?_⟩
  obtain ⟨r, hr, hlo, -⟩ := (mem_page hm offset limit).mp hy
  exact ts_le hx hr hlo

/-! ## Spans -/

theorem Spans.imp {lo hi : Nat} (h : L.Spans P lo hi) (hPQ : ∀ x, P x → Q x) : L.Spans Q lo hi :=
  fun r x hlo hhi hx => hPQ x (h r x hlo hhi hx)

theorem Spans.mono {lo hi lo' hi' : Nat} (h : L.Spans P lo hi) (hlo : lo ≤ lo') (hhi : hi' ≤ hi) :
    L.Spans P lo' hi' :=
  fun r x hr hr' hx => h r x (by omega) (by omega) hx

/-- Two spans that meet. -/
theorem Spans.join {lo mid mid' hi : Nat} (h : L.Spans P lo mid)
    (h' : L.Spans P mid' hi) (hmid : mid' ≤ mid) :
    L.Spans P lo hi := by
  intro r x hlo hhi hx
  by_cases hr : r < mid
  · exact h r x hlo hr hx
  · exact h' r x (by omega) hhi hx

theorem Spans.grows {lo hi : Nat} (h : L.Spans P lo hi) (hg : L.Grows M)
    (hhi : hi ≤ L.entries.length) :
    M.Spans P lo hi := by
  intro r x hlo hr hx
  rw [hg.getElem?_of_lt (by omega)] at hx
  exact h r x hlo hr hx

theorem spans_page {m offset limit : Nat} (hm : m ≤ L.entries.length)
    (h : ∀ x ∈ L.page m offset limit, P x) : L.Spans P (m - offset - limit) (m - offset) :=
  fun r x hlo hhi hx => h x ((mem_page hm offset limit).mpr ⟨r, hx, hlo, hhi⟩)

/-! ## Reaching one key from another -/

/-- The entries after `k₀`, up to `k`; nothing is said of a `k₀` that is not in the log. -/
def Reached (L : Log key ts) (P : α → Prop) (k₀ k : κ) : Prop :=
  k = k₀ ∨ ∃ b, L.At k b ∧ ∀ f, L.At k₀ f → L.Spans P (f + 1) (b + 1)

theorem Reached.refl (L : Log key ts) (P : α → Prop) (k : κ) : L.Reached P k k := .inl rfl

theorem Reached.imp {k₀ k : κ} (h : L.Reached P k₀ k)
    (hPQ : ∀ x, P x → Q x) : L.Reached Q k₀ k := by
  rcases h with rfl | ⟨b, hb, hspan⟩
  · exact .refl L Q k
  · exact .inr ⟨b, hb, fun f hf => (hspan f hf).imp hPQ⟩

theorem Reached.spans {k₀ k : κ} {f b : Nat} (h : L.Reached P k₀ k)
    (hf : L.At k₀ f) (hb : L.At k b) :
    L.Spans P (f + 1) (b + 1) := by
  rcases h with rfl | ⟨b', hb', hspan⟩
  · obtain rfl := hf.unique hb
    intro r x hlo hhi
    omega
  · obtain rfl := hb.unique hb'
    exact hspan f hf

/-- A `k₀` that only appears later is younger than `k`. -/
theorem Reached.grows {k₀ k : κ} (h : L.Reached P k₀ k) (hg : L.Grows M) : M.Reached P k₀ k := by
  rcases h with rfl | ⟨b, hb, hspan⟩
  · exact .refl M P k
  · refine .inr ⟨b, hb.grows hg, fun f hf => ?_⟩
    by_cases hlt : f < L.entries.length
    · obtain ⟨x, hx, hk⟩ := hf
      rw [hg.getElem?_of_lt hlt] at hx
      exact (hspan f ⟨x, hx, hk⟩).grows hg hb.lt
    · have := hb.lt
      intro r x hlo hhi
      omega

theorem Reached.step {k₀ k k' : κ} {a h : Nat} (hr : L.Reached P k₀ k)
    (ha : L.At k a) (hh : L.At k' h) (hspan : L.Spans P (a + 1) (h + 1)) : L.Reached P k₀ k' :=
  .inr ⟨h, hh, fun _ hf => (hr.spans hf ha).join hspan (Nat.le_refl _)⟩

/-! ## Paging backwards below a frozen timestamp -/

/-- What a reader that has come down to rank `m` has of the first `n` entries; `w` is the
timestamp of the oldest entry it has seen. -/
def Covered (L : Log key ts) (P : α → Prop) (m : Nat) (w : Option β) (n : Nat) : Prop :=
  L.Spans P m n ∧ ∀ t, w = some t → ∀ r x, r < n → L.entries[r]? = some x → t < ts x → P x

theorem Covered.start {m n : Nat} (h : n ≤ m) : L.Covered P m none n :=
  ⟨fun r x hlo hhi => by omega, fun t ht => by cases ht⟩

theorem Covered.imp {m n : Nat} {w : Option β} (h : L.Covered P m w n)
    (hPQ : ∀ x, P x → Q x) : L.Covered Q m w n :=
  ⟨h.1.imp hPQ, fun t ht i x hi hx hlt => hPQ x (h.2 t ht i x hi hx hlt)⟩

theorem Covered.mono {m m' n : Nat} {w : Option β} (h : L.Covered P m w n)
    (hm : m ≤ m') : L.Covered P m' w n :=
  ⟨h.1.mono hm (Nat.le_refl _), h.2⟩

theorem Covered.grows {m n : Nat} {w : Option β} (h : L.Covered P m w n) (hg : L.Grows M)
    (hn : n ≤ L.entries.length) :
    M.Covered P m w n := by
  refine ⟨h.1.grows hg hn, fun t ht i x hi hx hlt => ?_⟩
  rw [hg.getElem?_of_lt (by omega)] at hx
  exact h.2 t ht i x hi hx hlt

/-- One page further down. -/
theorem Covered.page {m n offset limit : Nat} {w : Option β} (h : L.Covered P (m - offset) w n)
    (hm : m ≤ L.entries.length) (hpage : ∀ x ∈ L.page m offset limit, P x) {w' : Option β}
    (hw : w' = w ∨ ∃ x ∈ L.page m offset limit, w' = some (ts x)) :
    L.Covered P (m - offset - limit) w' n := by
  have hspan : L.Spans P (m - offset - limit) n := (spans_page hm hpage).join h.1 (Nat.le_refl _)
  refine ⟨hspan, fun t ht i x hi hx hlt => ?_⟩
  rcases hw with rfl | ⟨y, hy, rfl⟩
  · exact h.2 t ht i x hi hx hlt
  · obtain rfl := Option.some.inj ht
    obtain ⟨j, hj, hlo, -⟩ := (mem_page hm offset limit).mp hy
    refine hspan i x ?_ hi hx
    -- an entry below the page is no younger than one on it
    by_contra hbelow
    exact absurd (ts_le hx hj (by omega)) (not_le.mpr hlt)

/-- Starting over from the oldest timestamp seen. -/
theorem Covered.roll {m n : Nat} {t : β} (h : L.Covered P m (some t) n) :
    L.Covered P (L.upTo t) (some t) n := by
  refine ⟨fun i x hlo hhi hx => h.2 t rfl i x hhi hx ?_, h.2⟩
  by_contra hle
  exact absurd ((lt_upTo_iff hx).mpr (not_lt.mp hle)) (by omega)

/-- What a reader that has come down to rank `m` has of the entries up to `k`; `w` is the
timestamp of the oldest entry it has seen. -/
def Scanned (L : Log key ts) (P : α → Prop) (m : Nat) (w : Option β) (k : κ) : Prop :=
  ∃ h, L.At k h ∧ L.Spans P m (h + 1) ∧
    ∀ t, w = some t → ∀ r x, r ≤ h → L.entries[r]? = some x → t < ts x → P x

theorem scanned_iff {m : Nat} {w : Option β} {k : κ} :
    L.Scanned P m w k ↔ ∃ h, L.At k h ∧ L.Covered P m w (h + 1) := by
  refine exists_congr fun h => and_congr_right fun _ => and_congr_right fun _ => ?_
  exact forall₄_congr fun t ht r x => imp_congr_left Nat.lt_succ_iff.symm

theorem Scanned.start {m h : Nat} {k : κ} (hk : L.At k h) (hm : h < m) : L.Scanned P m none k :=
  scanned_iff.mpr ⟨h, hk, Covered.start hm⟩

theorem Scanned.imp {m : Nat} {w : Option β} {k : κ}
    (h : L.Scanned P m w k) (hPQ : ∀ x, P x → Q x) :
    L.Scanned Q m w k := by
  obtain ⟨r, hr, hcovered⟩ := scanned_iff.mp h
  exact scanned_iff.mpr ⟨r, hr, hcovered.imp hPQ⟩

theorem Scanned.mono {m m' : Nat} {w : Option β} {k : κ} (h : L.Scanned P m w k) (hm : m ≤ m') :
    L.Scanned P m' w k := by
  obtain ⟨r, hr, hcovered⟩ := scanned_iff.mp h
  exact scanned_iff.mpr ⟨r, hr, hcovered.mono hm⟩

theorem Scanned.grows {m : Nat} {w : Option β} {k : κ} (h : L.Scanned P m w k) (hg : L.Grows M) :
    M.Scanned P m w k := by
  obtain ⟨r, hr, hcovered⟩ := scanned_iff.mp h
  exact scanned_iff.mpr ⟨r, hr.grows hg, hcovered.grows hg hr.lt⟩

/-- One page further down. -/
theorem Scanned.page {m offset limit : Nat} {w : Option β} {k : κ}
    (h : L.Scanned P (m - offset) w k) (hm : m ≤ L.entries.length)
    (hpage : ∀ x ∈ L.page m offset limit, P x) {w' : Option β}
    (hw : w' = w ∨ ∃ x ∈ L.page m offset limit, w' = some (ts x)) :
    L.Scanned P (m - offset - limit) w' k := by
  obtain ⟨r, hr, hcovered⟩ := scanned_iff.mp h
  exact scanned_iff.mpr ⟨r, hr, hcovered.page hm hpage hw⟩

/-- Starting over from the oldest timestamp seen. -/
theorem Scanned.roll {m : Nat} {t : β} {k : κ} (h : L.Scanned P m (some t) k) :
    L.Scanned P (L.upTo t) (some t) k := by
  obtain ⟨r, hr, hcovered⟩ := scanned_iff.mp h
  exact scanned_iff.mpr ⟨r, hr, hcovered.roll⟩

/-- A newer head, reached by a span that holds the old one. -/
theorem Scanned.lift {m lo h l : Nat} {w : Option β} {k k' : κ}
    (hs : L.Scanned P m w k) (hk : L.At k h) (hspan : L.Spans P lo (l + 1)) (hlo : lo ≤ h)
    (hk' : L.At k' l) : L.Scanned P m w k' := by
  obtain ⟨r, hr, hold, hyoung⟩ := hs
  obtain rfl := hk.unique hr
  refine ⟨l, hk', hold.join hspan (by omega), ?_⟩
  intro t ht i x hi hx hlt
  by_cases hih : i ≤ h
  · exact hyoung t ht i x hih hx hlt
  · exact hspan i x (by omega) (by omega) hx

theorem Scanned.reached {m a : Nat} {w : Option β} {k₀ k k' : κ}
    (hs : L.Scanned P m w k') (hr : L.Reached P k₀ k) (ha : L.At k a)
    (hm : m ≤ a) : L.Reached P k₀ k' := by
  obtain ⟨h, hh, hspan, -⟩ := hs
  exact hr.step ha hh (hspan.mono (by omega) (Nat.le_refl _))

end Log

end Feed
