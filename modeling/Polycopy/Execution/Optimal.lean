import Polycopy.Execution.BookWalk
import Polycopy.Lib.Greedy

/-!
# `walk_book` is the best market order

What the walk takes is a front of the sorted levels, so by `Greedy.Front.exchange`
no other allocation does better: a BUY gets the most shares for its money, a SELL
the most money for its shares.
-/

namespace Polycopy

open Greedy

/-! ## The walk takes a front -/

/-- The end of the loop over some levels: what it took and why it stopped. -/
structure WalkEnd {levels : List Level} (w w' : Walk) (f : Front Level.size levels) : Prop where
  shares : w'.shares = w.shares + f.total
  notional : w'.notional = w.notional + f.value Level.price
  used : w'.used = w.used + f.before.length + 1
  taken : 0 < f.amount
  stop : w'.remainingUsd ≤ 0 ∨ (∃ r ≤ 0, w'.remainingShares = some r) ∨
    (f.after = [] ∧ f.amount = f.item.size)

theorem Walk.done_iff (w : Walk) : w.done = true ↔
    w.remainingUsd ≤ 0 ∨ ∃ r ≤ 0, w.remainingShares = some r := by
  unfold Walk.done
  cases h : w.remainingShares <;> simp

theorem Walk.take_le_size (w : Walk) (lv : Level) : w.take lv ≤ lv.size := by
  unfold Walk.take
  cases w.remainingShares with
  | none => exact min_le_left _ _
  | some r => exact (min_le_left _ _).trans (min_le_left _ _)

/-- The first level of a walk, as a front. -/
def Walk.front (w : Walk) (lv : Level) (rest : List Level) (h : ¬ w.done = true) :
    Front Level.size (lv :: rest) where
  before := []
  item := lv
  after := rest
  amount := w.take lv
  split := rfl
  nonneg := (w.take_pos lv h).le
  le_size := w.take_le_size lv

theorem Walk.front_total (w : Walk) (lv : Level) (rest : List Level) (h : ¬ w.done = true) :
    (w.front lv rest h).total = w.take lv := zero_add _

theorem Walk.front_value (w : Walk) (lv : Level) (rest : List Level) (h : ¬ w.done = true) :
    (w.front lv rest h).value Level.price = w.take lv * lv.price := zero_add _

theorem walkEnd_first {w : Walk} {lv : Level} {rest : List Level} (h : ¬ w.done = true)
    (stop : (w.step lv).done = true ∨ rest = [] ∧ w.take lv = lv.size) :
    WalkEnd w (w.step lv) (w.front lv rest h) := by
  refine ⟨?_, ?_, rfl, w.take_pos lv h, ?_⟩
  · rw [w.front_total]
    rfl
  · rw [w.front_value]
    rfl
  · rcases stop with stop | stop
    · exact ((w.step lv).done_iff.mp stop).imp_right .inl
    · exact .inr (.inr stop)

/-- A level that neither budget cuts short is taken whole. -/
theorem Walk.take_eq_size {w : Walk} {lv : Level} (hmoney : w.take lv ≠ w.affordable lv)
    (hcap : ¬ (w.step lv).done = true) : w.take lv = lv.size := by
  have hmin : ∀ t, t = min lv.size (w.affordable lv) → t ≠ w.affordable lv → t = lv.size := by
    intro t ht hne
    rcases min_choice lv.size (w.affordable lv) with h | h
    · exact ht.trans h
    · exact absurd (ht.trans h) hne
  rw [Walk.done_iff, not_or] at hcap
  cases hr : w.remainingShares with
  | none =>
    have htake : w.take lv = min lv.size (w.affordable lv) := by
      unfold Walk.take
      rw [hr]
    exact hmin _ htake hmoney
  | some r =>
    have htake : w.take lv = min (min lv.size (w.affordable lv)) r := by
      unfold Walk.take
      rw [hr]
    rcases min_choice (min lv.size (w.affordable lv)) r with h | h
    · exact hmin _ (htake.trans h) hmoney
    · have hleft : (w.step lv).remainingShares = some (r - w.take lv) := by
        show w.remainingShares.map _ = _
        rw [hr]
        rfl
      rw [htake, h, sub_self] at hleft
      exact absurd ⟨0, le_refl _, hleft⟩ hcap.2

theorem walkLevels_front : ∀ (levels : List Level) (w : Walk), levels ≠ [] → ¬ w.done = true →
    ∃ f : Front Level.size levels, WalkEnd w (walkLevels levels w) f := by
  intro levels
  induction levels with
  | nil => exact fun w h => absurd rfl h
  | cons lv rest ih =>
    intro w _ hd
    unfold walkLevels
    rw [if_neg hd]
    by_cases hmoney : w.take lv = w.affordable lv
    · rw [if_pos hmoney]
      refine ⟨w.front lv rest hd, walkEnd_first hd (.inl ?_)⟩
      rw [Walk.done_iff]
      left
      unfold Walk.step
      dsimp only
      rw [if_pos hmoney]
    · rw [if_neg hmoney]
      by_cases hdone : (w.step lv).done = true
      · have hstop : walkLevels rest (w.step lv) = w.step lv := by
          cases rest with
          | nil => rfl
          | cons lv' rest' =>
            unfold walkLevels
            rw [if_pos hdone]
        rw [hstop]
        exact ⟨w.front lv rest hd, walkEnd_first hd (.inl hdone)⟩
      · have hwhole := Walk.take_eq_size hmoney hdone
        cases rest with
        | nil => exact ⟨w.front lv [] hd, walkEnd_first hd (.inr ⟨rfl, hwhole⟩)⟩
        | cons lv' rest' =>
          obtain ⟨f, hf⟩ := ih (w.step lv) (List.cons_ne_nil _ _) hdone
          refine ⟨f.behind lv, ?_, ?_, ?_, hf.taken, hf.stop⟩
          · rw [hf.shares, f.behind_total, ← hwhole]
            exact add_assoc _ _ _
          · rw [hf.notional, f.behind_value, ← hwhole]
            exact add_assoc _ _ _
          · rw [hf.used]
            show w.used + 1 + f.before.length + 1 = w.used + (f.before.length + 1) + 1
            omega

/-! ## What comes back -/

/-- The levels of the walked side that `_ok` lets through, as the book lists them. -/
def validLevels (side : Side) (bids asks : List BookLevel) : List Level :=
  (if side = .buy then asks else bids).filterMap BookLevel.ok?

namespace FillResult

def filledSize : FillResult → ℚ
  | .missed _ => 0
  | .took fill => fill.filledSize

def fillPrice : FillResult → Option ℚ
  | .missed _ => none
  | .took fill => some fill.fillPrice

def status : FillResult → OrderStatus
  | .missed _ => .missed
  | .took fill => fill.status

def depthAvailable : FillResult → ℚ
  | .missed depthAvailable => depthAvailable
  | .took fill => fill.depthAvailable

def levelsConsumed : FillResult → Nat
  | .missed _ => 0
  | .took fill => fill.levelsConsumed

/-- `filled_size * fill_price`. -/
def notional (r : FillResult) : ℚ := r.filledSize * r.fillPrice.getD 0

end FillResult

/-- The fill as the front the walk took. -/
structure Walked (sizeUsd : ℚ) (maxShares : Option ℚ) {levels : List Level} (r : FillResult)
    (f : Front Level.size levels) : Prop where
  size : r.filledSize = f.total
  notional : r.notional = f.value Level.price
  price : r.fillPrice = some (f.value Level.price / f.total)
  used : r.levelsConsumed = f.before.length + 1
  available : r.depthAvailable = depth levels
  status : r.status = if f.value Level.price = sizeUsd then .filled else .partialFill
  total_pos : 0 < f.total
  money : f.value Level.price ≤ sizeUsd
  cap : ∀ m, maxShares = some m → f.total ≤ m
  stop : f.value Level.price = sizeUsd ∨ maxShares = some f.total ∨ f.total = depth levels

theorem level_size_nonneg (lv : Level) : 0 ≤ lv.size := lv.size_pos.le

theorem front_total_pos {levels : List Level} (f : Front Level.size levels)
    (h : 0 < f.amount) : 0 < f.total :=
  add_pos_of_nonneg_of_pos (List.sum_nonneg fun x hx => by
    obtain ⟨lv, -, rfl⟩ := List.mem_map.mp hx
    exact level_size_nonneg lv) h

theorem front_total_depth {levels : List Level} (f : Front Level.size levels)
    (h : f.after = [] ∧ f.amount = f.item.size) : f.total = depth levels := by
  obtain ⟨before, item, after, amount, rfl, nonneg, le_size⟩ := f
  obtain ⟨rfl, hamount⟩ := h
  dsimp only at hamount
  unfold Front.total depth
  simp [hamount]

theorem front_ne_nil {levels : List Level} (f : Front Level.size levels) : levels ≠ [] := fun h =>
  List.append_ne_nil_of_right_ne_nil _ (List.cons_ne_nil _ _) (f.split.symm.trans h)

theorem depth_pos {levels : List Level} (h : levels ≠ []) : 0 < depth levels := by
  obtain ⟨lv, rest, rfl⟩ := List.exists_cons_of_ne_nil h
  unfold depth
  rw [List.map_cons, List.sum_cons]
  exact add_pos_of_pos_of_nonneg lv.size_pos (List.sum_nonneg fun x hx => by
    obtain ⟨lv, -, rfl⟩ := List.mem_map.mp hx
    exact level_size_nonneg lv)

/-- A valid order of either side: a miss without valid levels, else a front of the sorted ones. -/
theorem walkBook_walked {side : Side} {sizeUsd : ℚ}
    (bids asks : List BookLevel) {maxShares : Option ℚ} (hsize : 0 < sizeUsd)
    (hcap : ∀ m, maxShares = some m → 0 < m) (hside : side = .buy ∨ side = .sell) :
    (walkedLevels side bids asks = [] ∧
      walkBook side sizeUsd bids asks maxShares = .ok (.missed 0)) ∨
    ∃ r, ∃ f : Front Level.size (walkedLevels side bids asks),
      walkBook side sizeUsd bids asks maxShares = .ok r ∧ Walked sizeUsd maxShares r f := by
  unfold walkBook
  rw [if_neg (not_le.mpr hsize), if_neg fun h => hside.elim h.1 h.2]
  dsimp only
  by_cases hnil : walkedLevels side bids asks = []
  · rw [if_pos (.inl hnil)]
    exact .inl ⟨hnil, rfl⟩
  · right
    have hstart : ¬ (Walk.start sizeUsd maxShares).done = true := by
      rw [Walk.done_iff]
      rintro (h | ⟨m, hm, hmax⟩)
      · exact absurd h (not_le.mpr hsize)
      · exact absurd hm (not_le.mpr (hcap m hmax))
    obtain ⟨f, hf⟩ := walkLevels_front _ _ hnil hstart
    have hinv := walkInv_walkLevels (walkedLevels side bids asks) _
      (walkInv_start sizeUsd maxShares hsize.le fun m hm => (hcap m hm).le)
    generalize walkLevels (walkedLevels side bids asks) (Walk.start sizeUsd maxShares) = w at hf hinv
    have hshares : w.shares = f.total := hf.shares.trans (zero_add _)
    have hnotional : w.notional = f.value Level.price := hf.notional.trans (zero_add _)
    have hused : w.used = f.before.length + 1 := by rw [hf.used]; show 0 + _ + 1 = _; omega
    have hpos := front_total_pos f hf.taken
    have hspent := hinv.spent
    have hleft := hinv.left
    have hmet : w.remainingUsd ≤ 0 ↔ f.value Level.price = sizeUsd := by
      rw [← hnotional]
      constructor <;> intro h <;> linarith
    rw [if_neg (not_or.mpr ⟨hnil, not_le.mpr (depth_pos hnil)⟩),
      if_neg (by rw [hshares]; exact not_le.mpr hpos)]
    refine ⟨_, f, rfl, hshares, ?_, ?_, hused, rfl, ?_, hpos, ?_, ?_, ?_⟩
    · show w.shares * (w.notional / w.shares) = _
      rw [mul_div_cancel₀ _ (by rw [hshares]; exact hpos.ne'), hnotional]
    · show some (w.notional / w.shares) = _
      rw [hshares, hnotional]
    · exact if_congr hmet rfl rfl
    · rw [← hnotional]
      linarith
    · rintro m rfl
      have := hinv.capNonneg _ hinv.capLeft
      rw [← hshares]
      linarith
    · rcases hf.stop with h | ⟨m, hm, hmax⟩ | h
      · exact .inl (hmet.mp h)
      · right
        left
        have hcapleft := hinv.capLeft
        rw [hmax] at hcapleft
        obtain ⟨m₀, hm₀, hsub⟩ := Option.map_eq_some_iff.mp hcapleft.symm
        have hzero := hinv.capNonneg m hmax
        rw [hm₀, ← hshares]
        exact congrArg some (by linarith)
      · exact .inr (.inr (front_total_depth f h))

/-! ## Sorted levels -/

/-- Negated for a SELL, whose best price is the highest. -/
def sideRate (side : Side) (lv : Level) : ℚ := if side = .sell then -lv.price else lv.price

theorem walkedLevels_perm (side : Side) (bids asks : List BookLevel) :
    (walkedLevels side bids asks).Perm (validLevels side bids asks) := by
  unfold walkedLevels sortLevels validLevels
  split
  · exact List.perm_insertionSort _ _
  · exact List.perm_insertionSort _ _

theorem walkedLevels_sorted (side : Side) (bids asks : List BookLevel) :
    (walkedLevels side bids asks).Pairwise fun a b => sideRate side a ≤ sideRate side b := by
  unfold walkedLevels sortLevels sideRate
  split
  · have hsorted := List.pairwise_insertionSort (fun a b : Level => b.price ≤ a.price)
      ((if side = .buy then asks else bids).filterMap BookLevel.ok?)
    exact hsorted.imp fun h => neg_le_neg h
  · exact List.pairwise_insertionSort (fun a b : Level => a.price ≤ b.price) _

theorem depth_perm {levels levels' : List Level} (h : levels.Perm levels') :
    depth levels = depth levels' :=
  (h.map Level.size).sum_eq

/-! ## The exchange, side by side -/

abbrev Allocation (levels : List Level) := Alloc Level.size levels

/-- Within the share cap. -/
def Within {levels : List Level} (maxShares : Option ℚ) (a : Allocation levels) : Prop :=
  ∀ m, maxShares = some m → a.total ≤ m

section
variable {levels : List Level} {sizeUsd : ℚ} {maxShares : Option ℚ} {r : FillResult}
  {f : Front Level.size levels}

theorem buy_exchange (sorted : levels.Pairwise fun a b => sideRate .buy a ≤ sideRate .buy b)
    (f : Front Level.size levels)
    (a : Allocation levels) : f.value Level.price - a.value Level.price ≤
      f.item.price * (f.total - a.total) :=
  f.exchange sorted a

theorem sell_exchange (sorted : levels.Pairwise fun a b => sideRate .sell a ≤ sideRate .sell b)
    (f : Front Level.size levels)
    (a : Allocation levels) : a.value Level.price - f.value Level.price ≤
      f.item.price * (a.total - f.total) := by
  have h : (f.value fun lv => - lv.price) - (a.value fun lv => - lv.price) ≤ - f.item.price *
      (f.total - a.total) :=
    f.exchange sorted a
  rw [← f.alloc_value level_size_nonneg, Alloc.value_neg, Alloc.value_neg,
    f.alloc_value level_size_nonneg] at h
  linarith

/-- The same between two fronts, whatever order equal prices come in. -/
theorem buy_exchange_front (sorted : levels.Pairwise fun a b => sideRate .buy a ≤ sideRate .buy b)
    (f : Front Level.size levels) {levels' : List Level} (hperm : levels'.Perm levels)
    (f' : Front Level.size levels') :
    f.value Level.price - f'.value Level.price ≤ f.item.price * (f.total - f'.total) := by
  rw [← f'.alloc_total level_size_nonneg, ← f'.alloc_value level_size_nonneg]
  exact buy_exchange sorted f ((f'.alloc level_size_nonneg).reorder hperm)

theorem sell_exchange_front (sorted : levels.Pairwise fun a b => sideRate .sell a ≤ sideRate .sell b)
    (f : Front Level.size levels) {levels' : List Level} (hperm : levels'.Perm levels)
    (f' : Front Level.size levels') :
    f'.value Level.price - f.value Level.price ≤ f.item.price * (f'.total - f.total) := by
  rw [← f'.alloc_total level_size_nonneg, ← f'.alloc_value level_size_nonneg]
  exact sell_exchange sorted f ((f'.alloc level_size_nonneg).reorder hperm)

/-- A BUY takes no fewer shares than any allocation its money and cap allow. -/
theorem Walked.buy_most (h : Walked sizeUsd maxShares r f)
    (sorted : levels.Pairwise fun a b => sideRate .buy a ≤ sideRate .buy b) (a : Allocation levels)
    (hmoney : a.value Level.price ≤ sizeUsd) (hcap : Within maxShares a) : a.total ≤ f.total := by
  rcases h.stop with hstop | hstop | hstop
  · by_contra hlt
    rw [not_le] at hlt
    have hneg := mul_neg_of_pos_of_neg f.item.price_pos (sub_neg.mpr hlt)
    have := buy_exchange sorted f a
    linarith
  · exact hcap _ hstop
  · rw [hstop]
    exact a.total_le

/-- A SELL whose money does not run out gets as much as any allocation within its cap. -/
theorem Walked.sell_best (h : Walked sizeUsd maxShares r f)
    (sorted : levels.Pairwise fun a b => sideRate .sell a ≤ sideRate .sell b)
    (hshort : f.value Level.price ≠ sizeUsd) (a : Allocation levels)
    (hcap : Within maxShares a) :
    a.value Level.price ≤ f.value Level.price := by
  have hle : a.total ≤ f.total := by
    rcases h.stop with hstop | hstop | hstop
    · exact absurd hstop hshort
    · exact hcap _ hstop
    · rw [hstop]
      exact a.total_le
  have hneg := mul_nonpos_of_nonneg_of_nonpos f.item.price_pos.le (sub_nonpos.mpr hle)
  have := sell_exchange sorted f a
  linarith

/-- More money never takes fewer shares, whatever order equal prices come in. -/
theorem Walked.total_mono {side : Side} (hside : side = .buy ∨ side = .sell)
    (h : Walked sizeUsd maxShares r f)
    (sorted : levels.Pairwise fun a b => sideRate side a ≤ sideRate side b)
    {levels' : List Level} {sizeUsd' : ℚ} {r' : FillResult} {f' : Front Level.size levels'}
    (h' : Walked sizeUsd' maxShares r' f')
    (sorted' : levels'.Pairwise fun a b => sideRate side a ≤ sideRate side b)
    (hperm : levels.Perm levels') (hle : sizeUsd ≤ sizeUsd') : f.total ≤ f'.total := by
  rcases h'.stop with hstop | hstop | hstop
  · by_contra hlt
    rw [not_le] at hlt
    have hmoney := h.money
    rcases hside with rfl | rfl
    · have hex := buy_exchange_front sorted' f' hperm f
      have := mul_neg_of_pos_of_neg f'.item.price_pos (sub_neg.mpr hlt)
      linarith
    · have hex := sell_exchange_front sorted f hperm.symm f'
      have := mul_neg_of_pos_of_neg f.item.price_pos (sub_neg.mpr hlt)
      linarith
  · exact h.cap _ hstop
  · rw [hstop, ← depth_perm hperm, ← f.alloc_total level_size_nonneg]
    exact (f.alloc level_size_nonneg).total_le

/-- The value of a front is settled by its total. -/
theorem front_value_eq {side : Side} (hside : side = .buy ∨ side = .sell)
    (sorted : levels.Pairwise fun a b => sideRate side a ≤ sideRate side b) {levels' : List Level}
    {f' : Front Level.size levels'}
    (sorted' : levels'.Pairwise fun a b => sideRate side a ≤ sideRate side b)
    (hperm : levels.Perm levels') (htotal : f.total = f'.total) :
    f.value Level.price = f'.value Level.price := by
  rcases hside with rfl | rfl
  · have h₁ := buy_exchange_front sorted' f' hperm f
    have h₂ := buy_exchange_front sorted f hperm.symm f'
    rw [htotal, sub_self, mul_zero] at h₁ h₂
    linarith
  · have h₁ := sell_exchange_front sorted' f' hperm f
    have h₂ := sell_exchange_front sorted f hperm.symm f'
    rw [htotal, sub_self, mul_zero] at h₁ h₂
    linarith

end

/-! ## The theorem -/

/-- The most shares the money and the cap allow, at the least cost for that many. -/
structure BestBuy (sizeUsd : ℚ) (maxShares : Option ℚ) (levels : List Level)
    (r : FillResult) : Prop where
  most : IsGreatest
    {t | ∃ a : Allocation levels, a.value Level.price ≤ sizeUsd ∧ Within maxShares a ∧ a.total = t}
    r.filledSize
  cheapest : IsLeast
    {c | ∃ a : Allocation levels, a.total = r.filledSize ∧ a.value Level.price = c} r.notional

/-- The request or the greatest proceeds within the cap, and nothing better for that many shares. -/
structure BestSell (sizeUsd : ℚ) (maxShares : Option ℚ) (levels : List Level)
    (r : FillResult) : Prop where
  proceeds : ∃ best, IsGreatest
    {v | ∃ a : Allocation levels, Within maxShares a ∧ a.value Level.price = v} best ∧
    r.notional = min sizeUsd best
  noBetter : ∀ a : Allocation levels, a.total ≤ r.filledSize → a.value Level.price ≤ r.notional

/-- Filled when the request is met, missed without a valid level, else partial. -/
structure StatusOk (sizeUsd : ℚ) (levels : List Level) (r : FillResult) : Prop where
  filled : r.status = .filled ↔ r.notional = sizeUsd
  missed : r.status = .missed ↔ levels = []

/-- The price lies between the first and the last level consumed. -/
def PriceBetween (walked : List Level) (r : FillResult) : Prop :=
  ∀ price, r.fillPrice = some price → ∃ best worst,
    (walked.take r.levelsConsumed).head? = some best ∧
    (walked.take r.levelsConsumed).getLast? = some worst ∧
    min best.price worst.price ≤ price ∧ price ≤ max best.price worst.price

/-- The same but for how many levels it took. -/
structure SameFill (r r' : FillResult) : Prop where
  filledSize : r'.filledSize = r.filledSize
  fillPrice : r'.fillPrice = r.fillPrice
  status : r'.status = r.status
  depthAvailable : r'.depthAvailable = r.depthAvailable

theorem alloc_nil (a : Allocation []) : a.amounts = [] :=
  List.map_eq_nil_iff.mp (List.perm_nil.mp a.perm)

def noAllocation : Allocation [] := ⟨[], List.Perm.refl _, by simp, by simp⟩

/-- Without valid levels a miss is all there is. -/
theorem missed_best {sizeUsd : ℚ} (hsize : 0 < sizeUsd) {maxShares : Option ℚ}
    (hcap : ∀ m, maxShares = some m → 0 < m)
    (depthAvailable : ℚ) : BestBuy sizeUsd maxShares [] (.missed depthAvailable) ∧
      BestSell sizeUsd maxShares [] (.missed depthAvailable) := by
  have htotal : ∀ a : Allocation [], a.total = 0 := fun a => by
    unfold Alloc.total
    rw [alloc_nil a]
    rfl
  have hvalue : ∀ a : Allocation [], a.value Level.price = 0 := fun a => by
    unfold Alloc.value
    rw [alloc_nil a]
    rfl
  have hwithin : ∀ a : Allocation [], Within maxShares a :=
    fun a m hm => (htotal a).trans_le (hcap m hm).le
  have hnotional : (FillResult.missed depthAvailable).notional = 0 := zero_mul _
  refine ⟨⟨⟨⟨noAllocation, (hvalue _).trans_le hsize.le, hwithin _, htotal _⟩, ?_⟩,
    ⟨⟨noAllocation, htotal _, ?_⟩, ?_⟩⟩,
    ⟨⟨0, ⟨⟨noAllocation, hwithin _, hvalue _⟩, ?_⟩, ?_⟩, fun a _ => ?_⟩⟩
  · rintro t ⟨a, -, -, rfl⟩
    exact (htotal a).le
  · rw [hvalue, hnotional]
  · rintro c ⟨a, -, rfl⟩
    rw [hvalue, hnotional]
  · rintro v ⟨a, -, rfl⟩
    exact (hvalue a).le
  · rw [hnotional, min_eq_right hsize.le]
  · rw [hvalue, hnotional]

section
variable {levels valid : List Level} {sizeUsd : ℚ} {maxShares : Option ℚ} {r : FillResult}
  {f : Front Level.size levels}

theorem Walked.within (h : Walked sizeUsd maxShares r f) :
    Within maxShares (f.alloc level_size_nonneg) := by
  intro m hm
  rw [f.alloc_total level_size_nonneg]
  exact h.cap m hm

theorem Walked.bestBuy (h : Walked sizeUsd maxShares r f) (hperm : levels.Perm valid)
    (sorted : levels.Pairwise fun a b => sideRate .buy a ≤ sideRate .buy b) :
    BestBuy sizeUsd maxShares valid r := by
  have htotal := f.alloc_total level_size_nonneg
  have hvalue : (f.alloc level_size_nonneg).value Level.price = f.value Level.price :=
    f.alloc_value level_size_nonneg
  refine ⟨⟨⟨(f.alloc level_size_nonneg).reorder hperm, ?_, h.within, ?_⟩, ?_⟩,
    ⟨⟨(f.alloc level_size_nonneg).reorder hperm, ?_, ?_⟩, ?_⟩⟩
  · exact hvalue.trans_le h.money
  · exact htotal.trans h.size.symm
  · rintro t ⟨a, hmoney, hcap, rfl⟩
    rw [h.size]
    exact h.buy_most sorted (a.reorder hperm.symm) hmoney hcap
  · exact htotal.trans h.size.symm
  · exact hvalue.trans h.notional.symm
  · rintro c ⟨a, ha, rfl⟩
    have hex := buy_exchange sorted f (a.reorder hperm.symm)
    have hsame : (a.reorder hperm.symm).total = f.total := ha.trans h.size
    rw [hsame, sub_self, mul_zero] at hex
    rw [h.notional]
    exact sub_nonpos.mp hex

/-- A SELL is measured against the walk of a request too large to meet. -/
theorem Walked.bestSell (h : Walked sizeUsd maxShares r f) (hperm : levels.Perm valid)
    (sorted : levels.Pairwise fun a b => sideRate .sell a ≤ sideRate .sell b) {large : ℚ}
    {r' : FillResult} {f' : Front Level.size levels} (h' : Walked large maxShares r' f')
    (hlarge : f'.value Level.price ≠ large) :
    BestSell sizeUsd maxShares valid r := by
  have hbest := fun a : Allocation valid => h'.sell_best sorted hlarge (a.reorder hperm.symm)
  refine ⟨⟨f'.value Level.price, ⟨⟨(f'.alloc level_size_nonneg).reorder hperm, h'.within,
    f'.alloc_value level_size_nonneg⟩, ?_⟩, ?_⟩, fun a ha => ?_⟩
  · rintro v ⟨a, hcap, rfl⟩
    exact hbest a hcap
  · have hle := h'.sell_best sorted hlarge (f.alloc level_size_nonneg) h.within
    rw [f.alloc_value level_size_nonneg] at hle
    rw [h.notional]
    by_cases hmet : f.value Level.price = sizeUsd
    · rw [hmet] at hle ⊢
      exact (min_eq_left hle).symm
    · have hge := h.sell_best sorted hmet (f'.alloc level_size_nonneg) h'.within
      rw [f'.alloc_value level_size_nonneg] at hge
      rw [le_antisymm hge hle]
      exact (min_eq_right h.money).symm
  · have hex := sell_exchange sorted f (a.reorder hperm.symm)
    have hneg := mul_nonpos_of_nonneg_of_nonpos f.item.price_pos.le (sub_nonpos.mpr (h.size ▸ ha))
    rw [h.notional]
    exact sub_nonpos.mp (hex.trans hneg)

theorem Walked.statusOk (h : Walked sizeUsd maxShares r f) (hperm : levels.Perm valid) :
    StatusOk sizeUsd valid r := by
  refine ⟨?_, ?_⟩
  · rw [h.status, h.notional]
    split
    · next hmet => exact iff_of_true rfl hmet
    · next hmet => exact iff_of_false (by decide) hmet
  · refine iff_of_false ?_ ?_
    · rw [h.status]
      split <;> decide
    · rintro rfl
      exact front_ne_nil f (List.perm_nil.mp hperm)

theorem Walked.priceBetween (h : Walked sizeUsd maxShares r f) {side : Side}
    (hside : side = .buy ∨ side = .sell)
    (sorted : levels.Pairwise fun a b => sideRate side a ≤ sideRate side b) :
    PriceBetween levels r := by
  intro price hprice
  have hconsumed : levels.take r.levelsConsumed = f.before ++ [f.item] := by
    rw [h.used]
    exact (congrArg (List.take (f.before.length + 1)) (f.split.trans (List.append_cons _ _ _))).trans
      (List.take_left' (by simp))
  have hrates : (f.before ++ [f.item]).Pairwise fun a b => sideRate side a ≤ sideRate side b := by
    rw [← hconsumed]
    exact sorted.sublist (List.take_sublist _ _)
  obtain ⟨best, rest, hcons⟩ :=
    List.exists_cons_of_ne_nil (List.append_ne_nil_of_right_ne_nil f.before
    (List.cons_ne_nil f.item []))
  -- every level consumed is priced between the first and the last
  have hbetween : ∀ lv ∈ f.before ++ [f.item], min best.price f.item.price ≤ lv.price ∧
      lv.price ≤ max best.price f.item.price := by
    intro lv hlv
    have hlast : sideRate side lv ≤ sideRate side f.item := by
      rcases List.mem_append.mp hlv with hlv | hlv
      · exact (List.pairwise_append.mp hrates).2.2 lv hlv f.item (List.mem_singleton_self _)
      · rw [List.mem_singleton.mp hlv]
    have hfirst : sideRate side best ≤ sideRate side lv := by
      rw [hcons] at hlv hrates
      rcases List.mem_cons.mp hlv with rfl | hlv
      · exact le_refl _
      · exact (List.pairwise_cons.mp hrates).1 lv hlv
    unfold sideRate at hfirst hlast
    rcases hside with rfl | rfl
    · exact ⟨min_le_of_left_le hfirst, le_max_of_le_right hlast⟩
    · exact ⟨min_le_of_right_le (neg_le_neg_iff.mp hlast),
        le_max_of_le_left (neg_le_neg_iff.mp hfirst)⟩
  obtain rfl := Option.some.inj (h.price.symm.trans hprice)
  refine ⟨best, f.item, ?_, ?_, ?_, ?_⟩
  · rw [hconsumed, hcons]
    rfl
  · rw [hconsumed]
    exact List.getLast?_concat
  · exact (le_div_iff₀ h.total_pos).mpr
      (f.le_value level_size_nonneg fun lv hlv => (hbetween lv hlv).1)
  · exact (div_le_iff₀ h.total_pos).mpr
      (f.value_le level_size_nonneg fun lv hlv => (hbetween lv hlv).2)

theorem Walked.sameFill (h : Walked sizeUsd maxShares r f) {side : Side}
    (hside : side = .buy ∨ side = .sell)
    (sorted : levels.Pairwise fun a b => sideRate side a ≤ sideRate side b)
    {levels' : List Level} {r' : FillResult} {f' : Front Level.size levels'}
    (h' : Walked sizeUsd maxShares r' f')
    (sorted' : levels'.Pairwise fun a b => sideRate side a ≤ sideRate side b)
    (hperm : levels.Perm levels') :
    SameFill r r' := by
  have htotal : f.total = f'.total :=
    le_antisymm (h.total_mono hside sorted h' sorted' hperm (le_refl _))
    (h'.total_mono hside sorted' h sorted hperm.symm (le_refl _))
  have hvalue := front_value_eq hside sorted sorted' hperm htotal
  refine ⟨?_, ?_, ?_, ?_⟩
  · rw [h.size, h'.size, htotal]
  · rw [h.price, h'.price, htotal, hvalue]
  · rw [h.status, h'.status, hvalue]
  · rw [h.available, h'.available, depth_perm hperm]

end

/-- The walk of a request larger than all the levels together never meets it. -/
theorem front_short {levels : List Level} (f : Front Level.size levels) {large : ℚ}
    (hlarge : depth levels < large) :
    f.value Level.price ≠ large := by
  have hle : f.value Level.price ≤ 1 * f.total :=
    f.value_le level_size_nonneg fun lv _ => lv.price_le
  have htotal := (f.alloc level_size_nonneg).total_le
  rw [f.alloc_total level_size_nonneg] at htotal
  unfold depth at hlarge
  intro heq
  linarith

/-- `walk_book` gives the optimal market order: for every book, request and share cap. -/
theorem walk_book_optimal (side : Side) (sizeUsd : ℚ)
    (bids asks : List BookLevel) (maxShares : Option ℚ) (hside : side = .buy ∨ side = .sell)
    (hsize : 0 < sizeUsd) (hcap : ∀ m, maxShares = some m → 0 < m) :
    ∃ r, walkBook side sizeUsd bids asks maxShares = .ok r ∧
      (side = .buy → BestBuy sizeUsd maxShares (validLevels side bids asks) r) ∧
      (side = .sell → BestSell sizeUsd maxShares (validLevels side bids asks) r) ∧
      StatusOk sizeUsd (validLevels side bids asks) r ∧
      PriceBetween (walkedLevels side bids asks) r ∧
      (∀ bids' asks', (validLevels side bids asks).Perm (validLevels side bids' asks') →
        ∃ r', walkBook side sizeUsd bids' asks' maxShares = .ok r' ∧ SameFill r r') ∧
      (∀ sizeUsd', sizeUsd ≤ sizeUsd' → ∃ r', walkBook side sizeUsd' bids asks maxShares = .ok r' ∧
        r.filledSize ≤ r'.filledSize) := by
  have hperm := walkedLevels_perm side bids asks
  have hsorted := walkedLevels_sorted side bids asks
  rcases walkBook_walked bids asks hsize hcap hside with ⟨hnil, hwalk⟩ | ⟨r, f, hwalk, hf⟩
  · have hvalid : validLevels side bids asks = [] := List.perm_nil.mp (hnil ▸ hperm).symm
    obtain ⟨hbuy, hsell⟩ := missed_best hsize hcap 0
    refine ⟨_, hwalk, fun _ => hvalid ▸ hbuy, fun _ => hvalid ▸ hsell, ⟨?_, ?_⟩, ?_, ?_, ?_⟩
    · refine iff_of_false (by decide) fun h => ?_
      have hzero : (FillResult.missed 0).notional = 0 := zero_mul _
      exact hsize.ne (hzero.symm.trans h)
    · exact iff_of_true rfl hvalid
    · intro price hprice
      cases hprice
    · intro bids' asks' hsame
      rcases walkBook_walked bids' asks' hsize hcap hside with ⟨-, hwalk'⟩ | ⟨r', f', -, hf'⟩
      · exact ⟨_, hwalk', rfl, rfl, rfl, rfl⟩
      · have hnil' := List.perm_nil.mp (hvalid ▸ hsame).symm
        exact absurd (List.perm_nil.mp (hnil' ▸ walkedLevels_perm side bids' asks'))
          (front_ne_nil f')
    · intro sizeUsd' hle
      rcases walkBook_walked bids asks (hsize.trans_le hle) hcap hside with
      ⟨-, hwalk'⟩ | ⟨r', f', -, hf'⟩
      · exact ⟨_, hwalk', le_refl _⟩
      · exact absurd hnil (front_ne_nil f')
  · refine ⟨r, hwalk, ?_, ?_, hf.statusOk hperm, hf.priceBetween hside hsorted, ?_, ?_⟩
    · rintro rfl
      exact hf.bestBuy hperm hsorted
    · rintro rfl
      have hlarge : 0 < max sizeUsd (depth (walkedLevels .sell bids asks) + 1) :=
      lt_max_of_lt_left hsize
      obtain ⟨hnil, -⟩ | ⟨r', f', -, hf'⟩ := walkBook_walked bids asks hlarge hcap hside
      · exact absurd hnil (front_ne_nil f)
      · exact hf.bestSell hperm hsorted hf' (front_short f' (lt_max_of_lt_right (lt_add_one _)))
    · intro bids' asks' hsame
      have hlevels := hperm.trans (hsame.trans (walkedLevels_perm side bids' asks').symm)
      obtain ⟨hnil, -⟩ | ⟨r', f', hwalk', hf'⟩ := walkBook_walked bids' asks' hsize hcap hside
      · exact absurd (List.perm_nil.mp (hnil ▸ hlevels)) (front_ne_nil f)
      · exact ⟨r', hwalk', hf.sameFill hside hsorted hf'
          (walkedLevels_sorted side bids' asks') hlevels⟩
    · intro sizeUsd' hle
      obtain ⟨hnil, -⟩ | ⟨r', f', hwalk', hf'⟩ :=
      walkBook_walked bids asks (hsize.trans_le hle) hcap hside
      · exact absurd hnil (front_ne_nil f)
      · refine ⟨r', hwalk', ?_⟩
        rw [hf.size, hf'.size]
        exact hf.total_mono hside hsorted hf' hsorted (List.Perm.refl _) hle

/-- A BUY of ten dollars: all of the cheap level, some of the dear one, and none of the
one that is not valid. -/
def threeAsks : List BookLevel :=
  [⟨.fin false 80 (-2), .fin false 100 0⟩, ⟨.fin false 40 (-2), .fin false 5 0⟩,
    ⟨.fin false 2 0, .fin false 9 0⟩]

theorem walk_book_optimal_threeAsks :
    ∃ r, walkBook .buy 10 [] threeAsks none = .ok r ∧ r.filledSize = 15 ∧
    BestBuy 10 none (validLevels .buy [] threeAsks) r := by
  obtain ⟨r, hr, hbuy, -⟩ :=
    walk_book_optimal .buy 10 [] threeAsks none (.inl rfl) (by norm_num) (by simp)
  refine ⟨r, hr, ?_, hbuy rfl⟩
  have hsize :
      (walkBook .buy 10 [] threeAsks none).toOption.map FillResult.filledSize = some 15 := by
    decide +kernel
  rw [hr] at hsize
  exact Option.some.inj hsize

end Polycopy
