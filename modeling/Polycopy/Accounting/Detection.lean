import Polycopy.Accounting.Soundness

/-!
# What `detect_winning_outcome` can read

Python compares no NaN, indexes no object and iterates no number, and none of the three
is caught here.  `Legible` says of a closed market that nothing of the kind is met
(`detectWinningOutcome_ok_iff`); `Winner` is then all there is to a result
(`detectWinningOutcome_iff`).
-/

namespace Polycopy

open Py

/-! ## Values a list is made of -/

/-- `list(value or [])` does not raise. -/
def listLike : Json → Bool
  | .arr _ => true
  | .str _ => true
  | .obj _ => true
  | value => !value.truthy

def isObj : Json → Bool
  | .obj _ => true
  | _ => false

theorem listLike_iff {value : Json} : listLike value = true ↔
    ∃ items, (orEmpty value).iter = .ok items := by
  unfold orEmpty Json.orElse
  cases value with
  | arr items =>
    refine iff_of_true rfl ?_
    split
    · exact ⟨_, rfl⟩
    · exact ⟨_, rfl⟩
  | str s =>
    refine iff_of_true rfl ?_
    split
    · exact ⟨_, rfl⟩
    · exact ⟨_, rfl⟩
  | obj fields =>
    refine iff_of_true rfl ?_
    split
    · exact ⟨_, rfl⟩
    · exact ⟨_, rfl⟩
  | null => exact iff_of_true rfl ⟨[], rfl⟩
  | bool b =>
    cases b with
    | true => exact iff_of_false Bool.false_ne_true nofun
    | false => exact iff_of_true rfl ⟨[], rfl⟩
  | num text =>
    show (!(Json.num text).truthy) = true ↔ _
    cases (Json.num text).truthy with
    | true => exact iff_of_false Bool.false_ne_true nofun
    | false => exact iff_of_true rfl ⟨[], rfl⟩

theorem listLike_of_falsy {value : Json} (h : value.truthy = false) : listLike value = true := by
  cases value with
  | arr | str | obj => rfl
  | null | bool | num => exact Bool.not_eq_true' _ |>.mpr h

theorem orEmpty_of_truthy {value : Json} (h : value.truthy = true) :
    orEmpty value = value := if_pos h

theorem orEmpty_truthy (value : Json) : (orEmpty value).truthy = value.truthy := by
  unfold orEmpty Json.orElse
  split
  · rfl
  · next hfalsy => exact (Bool.eq_false_iff.mpr hfalsy).symm

/-- What can be iterated has as many items as its length says. -/
theorem len_of_iter {value : Json} {items : List Json} (h : value.iter = .ok items) :
    value.len = .ok items.length := by
  cases value with
  | arr l =>
    obtain rfl := Except.ok.inj h
    rfl
  | str s =>
    obtain rfl := Except.ok.inj h
    rw [List.length_map]
    rfl
  | obj fields =>
    obtain rfl := Except.ok.inj h
    rw [List.length_map]
    rfl
  | null | bool | num => cases h

theorem iter_of_len {value : Json} {n : Nat} (h : value.len = .ok n) :
    ∃ items, value.iter = .ok items := by
  cases value with
  | arr | str | obj => exact ⟨_, rfl⟩
  | null | bool | num => cases h

theorem length_pos_of_len {value : Json} {n : Nat} (h : value.len = .ok n)
    (hn : 0 < n) : value.truthy = true := by
  cases value with
  | arr l =>
    obtain rfl := Except.ok.inj h
    cases l with
    | nil => cases hn
    | cons a l => rfl
  | str s =>
    obtain rfl := Except.ok.inj h
    refine decide_eq_true fun hempty => ?_
    subst hempty
    cases hn
  | obj fields =>
    obtain rfl := Except.ok.inj h
    cases fields with
    | nil => cases hn
    | cons a l => rfl
  | null | bool | num => cases h

/-- A place below the length is one of a list or a text. -/
theorem index_ok_iff {value : Json} {n i : Nat} (h : value.len = .ok n) (hi : i < n) :
    (∃ item, value.index i = .ok item) ↔ isObj value = false := by
  cases value with
  | arr l =>
    obtain rfl := Except.ok.inj h
    refine iff_of_true ⟨l[i], ?_⟩ rfl
    unfold Json.index
    dsimp only
    rw [List.getElem?_eq_getElem hi]
  | str s =>
    obtain rfl := Except.ok.inj h
    have hi' : i < s.toList.length := hi
    refine iff_of_true ⟨.str (String.ofList [s.toList[i]]), ?_⟩ rfl
    unfold Json.index
    dsimp only
    rw [List.getElem?_eq_getElem hi']
  | obj fields => exact iff_of_false nofun nofun
  | null | bool | num => cases h

/-! ## Prices -/

def signals : Dec → Bool
  | .nan signaling _ _ => signaling
  | _ => false

def isNan : Dec → Bool
  | .nan _ _ _ => true
  | _ => false

def inRange (p : Dec) : Bool :=
  match p.value with
  | some q => 0 ≤ q && q ≤ 1
  | none => false

/-- No NaN comes before the first price out of range. -/
def comparable : List Dec → Bool
  | [] => true
  | p :: rest => !isNan p && (!inRange p || comparable rest)

/-- Only the price at place `i` is 1. -/
def SoleWinner (prices : List Dec) (i : Nat) : Prop :=
  ∀ j, (∃ p, prices[j]? = some p ∧ p.value = some 1) ↔ j = i

theorem isOne_ok_iff {p : Dec} : (∃ b, isOne p = .ok b) ↔ signals p = false := by
  cases p with
  | nan signaling neg payload =>
    cases signaling with
    | true => exact iff_of_false nofun nofun
    | false => exact iff_of_true ⟨_, rfl⟩ rfl
  | inf neg => exact iff_of_true ⟨_, rfl⟩ rfl
  | fin neg coef exp => exact iff_of_true ⟨_, rfl⟩ rfl

theorem outOfRange_eq {p : Dec} (h : isNan p = false) : outOfRange p = .ok (!inRange p) := by
  cases p with
  | nan signaling neg payload => cases h
  | inf neg => rfl
  | fin neg coef exp =>
    show Except.ok _ = Except.ok _
    unfold inRange
    dsimp only [Dec.value]
    rw [Bool.not_and, ← decide_not, ← decide_not]
    congr 2
    · exact decide_eq_decide.mpr not_le.symm
    · exact decide_eq_decide.mpr not_le.symm

theorem winnersFrom_ok_iff {prices : List Dec} {k : Nat} :
    (∃ l, winnersFrom k prices = .ok l) ↔ ∀ p ∈ prices, signals p = false := by
  induction prices generalizing k with
  | nil => exact iff_of_true ⟨[], rfl⟩ fun _ h => (List.not_mem_nil h).elim
  | cons p rest ih =>
    rw [List.forall_mem_cons, ← isOne_ok_iff, ← ih (k := k + 1)]
    constructor
    · rintro ⟨l, h⟩
      obtain ⟨won, hwon, h⟩ := bind_ok h
      obtain ⟨later, hlater, -⟩ := bind_ok h
      exact ⟨⟨won, hwon⟩, later, hlater⟩
    · rintro ⟨⟨won, hwon⟩, later, hlater⟩
      unfold winnersFrom
      rw [hwon]
      show ∃ l, (winnersFrom (k + 1) rest).bind _ = .ok l
      rw [hlater]
      exact ⟨_, rfl⟩

theorem winnersFrom_nodup {prices : List Dec} {k : Nat} {l : List Nat}
    (h : winnersFrom k prices = .ok l) : l.Nodup := by
  induction prices generalizing k l with
  | nil =>
    obtain rfl := Except.ok.inj h
    exact List.nodup_nil
  | cons p rest ih =>
    obtain ⟨won, hwon, h⟩ := bind_ok h
    obtain ⟨later, hlater, h⟩ := bind_ok h
    obtain rfl := Except.ok.inj h
    split
    · refine List.nodup_cons.mpr ⟨fun hk => ?_, ih hlater⟩
      obtain ⟨n, -, hn, -⟩ := (winnersFrom_mem hlater k).mp hk
      omega
    · exact ih hlater

/-- The places found are one place exactly where it is the sole winner. -/
theorem winnersFrom_sole {prices : List Dec} {l : List Nat} {i : Nat}
    (h : winnersFrom 0 prices = .ok l) :
    l = [i] ↔ SoleWinner prices i := by
  have hmem : ∀ j, j ∈ l ↔ ∃ p, prices[j]? = some p ∧ p.value = some 1 := by
    intro j
    rw [winnersFrom_mem h]
    simp
  constructor
  · rintro rfl j
    rw [← hmem, List.mem_singleton]
  · intro hsole
    have hi : i ∈ l := (hmem i).mpr ((hsole i).mpr rfl)
    have hall : ∀ j ∈ l, j = i := fun j hj => (hsole j).mp ((hmem j).mp hj)
    have hone : l = List.replicate l.length i := List.eq_replicate_of_mem hall
    have hlength : l.length = 1 := by
      have hcount : l.count i ≤ 1 := List.nodup_iff_count_le_one.mp (winnersFrom_nodup h) i
      rw [hone, List.count_replicate_self] at hcount
      have hpos := List.length_pos_of_mem hi
      omega
    rw [hone, hlength]
    rfl

theorem anyOutOfRange_ok_iff {prices : List Dec} : (∃ b, anyOutOfRange prices = .ok b) ↔
    comparable prices = true := by
  induction prices with
  | nil => exact iff_of_true ⟨false, rfl⟩ rfl
  | cons p rest ih =>
    unfold anyOutOfRange comparable
    cases hnan : isNan p with
    | true =>
      cases p with
      | nan signaling neg payload => exact iff_of_false nofun nofun
      | inf | fin => cases hnan
    | false =>
      rw [outOfRange_eq hnan]
      cases inRange p with
      | true => exact ih
      | false => exact iff_of_true ⟨true, rfl⟩ rfl

theorem inRange_iff {p : Dec} : inRange p = true ↔ ∃ q, p.value = some q ∧ 0 ≤ q ∧ q ≤ 1 := by
  unfold inRange
  cases p.value with
  | none => exact iff_of_false Bool.false_ne_true nofun
  | some q =>
    dsimp only
    rw [Bool.and_eq_true, decide_eq_true_iff, decide_eq_true_iff]
    exact ⟨fun h => ⟨q, rfl, h⟩, fun ⟨q', hq', h⟩ => Option.some.inj hq' ▸ h⟩

theorem anyOutOfRange_inRange {prices : List Dec} (h : ∀ p ∈ prices, inRange p = true) :
    anyOutOfRange prices = .ok false := by
  induction prices with
  | nil => rfl
  | cons p rest ih =>
    rw [List.forall_mem_cons] at h
    have hnan : isNan p = false := by
      cases p with
      | nan signaling neg payload => cases h.1
      | inf | fin => rfl
    unfold anyOutOfRange
    rw [outOfRange_eq hnan, h.1]
    exact ih h.2

/-! ## The market -/

/-- The prices of a closed market whose two lists have one length. -/
structure Priced (tx : Text) (gamma : Dict) (raw : Json) (prices : List Dec) : Prop where
  closed : (gamma.get "closed").truthy = true
  decoded : pricesRaw tx gamma = .ok (some raw)
  sized : (orEmpty (gamma.get "outcomes")).len = raw.len
  parsed : ∃ items, raw.iter = .ok items ∧ items.mapM Json.toDec = some prices

/-- What the prices of a market with a sole winner need. -/
structure Settling (outcomes : Json) (prices : List Dec) : Prop where
  compared : comparable prices = true
  indexed : (∀ p ∈ prices, inRange p = true) → isObj outcomes = false

/-- Nothing about the result of a closed market makes Python raise. -/
structure Legible (tx : Text) (gamma : Dict) : Prop where
  decoded : ∀ s e, gamma.get "outcomePrices" = .str s → tx.loads s = .error e → e = .valueError
  sized : ∀ raw, pricesRaw tx gamma = .ok (some raw) →
    (gamma.get "outcomes").truthy = true → listLike raw = true
  quiet : ∀ raw prices, Priced tx gamma raw prices → ∀ p ∈ prices, signals p = false
  settling : ∀ raw prices i, Priced tx gamma raw prices → SoleWinner prices i →
    Settling (orEmpty (gamma.get "outcomes")) prices

variable {tx : Text} {gamma : Dict}

theorem SoleWinner.lt {prices : List Dec} {i : Nat}
    (h : SoleWinner prices i) : i < prices.length := by
  obtain ⟨p, hp, -⟩ := (h i).mpr rfl
  exact (List.getElem?_eq_some_iff.mp hp).1

theorem winnerOf_ok_iff (tx : Text) {outcomes : Json} {prices : List Dec}
    (hlen : outcomes.len = .ok prices.length) :
    (∃ winner, winnerOf tx outcomes prices = .ok winner) ↔
      (∀ p ∈ prices, signals p = false) ∧ ∀ i, SoleWinner prices i → Settling outcomes prices := by
  constructor
  · rintro ⟨winner, h⟩
    obtain ⟨l, hl, h⟩ := bind_ok h
    refine ⟨winnersFrom_ok_iff.mp ⟨l, hl⟩, fun i hsole => ?_⟩
    obtain rfl := (winnersFrom_sole hl).mpr hsole
    obtain ⟨bad, hbad, h⟩ := bind_ok h
    refine ⟨anyOutOfRange_ok_iff.mp ⟨bad, hbad⟩, fun hrange => ?_⟩
    rw [anyOutOfRange_inRange hrange] at hbad
    obtain rfl := Except.ok.inj hbad
    obtain ⟨item, hitem, -⟩ := bind_ok h
    exact (index_ok_iff hlen hsole.lt).mp ⟨item, hitem⟩
  · rintro ⟨hquiet, hsettling⟩
    obtain ⟨l, hl⟩ := winnersFrom_ok_iff.mpr hquiet
    unfold winnerOf
    rw [hl]
    dsimp only [bind, Except.bind]
    split
    · next i =>
      have hsole := (winnersFrom_sole hl).mp rfl
      obtain ⟨hcompared, hindexed⟩ := hsettling i hsole
      obtain ⟨bad, hbad⟩ := anyOutOfRange_ok_iff.mpr hcompared
      rw [hbad]
      dsimp only
      cases bad with
      | true => exact ⟨none, rfl⟩
      | false =>
        have hrange : ∀ p ∈ prices, inRange p = true :=
          fun p hp => inRange_iff.mpr (anyOutOfRange_false hbad p hp)
        obtain ⟨item, hitem⟩ := (index_ok_iff hlen hsole.lt).mpr (hindexed hrange)
        rw [hitem]
        exact ⟨_, rfl⟩
    · exact ⟨none, rfl⟩

theorem pricesRaw_ok_iff : (∃ raw, pricesRaw tx gamma = .ok raw) ↔
    ∀ s e, gamma.get "outcomePrices" = .str s → tx.loads s = .error e → e = .valueError := by
  unfold pricesRaw
  cases gamma.get "outcomePrices" with
  | str s =>
    dsimp only
    cases hloads : tx.loads s with
    | ok j =>
      exact iff_of_true ⟨_, rfl⟩ fun s' e hs he => by rw [← Json.str.inj hs, hloads] at he; cases he
    | error e =>
      have hsame : (∀ s' e', Json.str s = .str s' → tx.loads s' = .error e' → e' = .valueError) ↔
          e = .valueError := by
        constructor
        · exact fun h => h s e rfl hloads
        · rintro rfl s' e' hs he
          rw [← Json.str.inj hs, hloads] at he
          exact (Except.error.inj he).symm
      rw [hsame]
      cases e with
      | valueError => exact iff_of_true ⟨none, rfl⟩ rfl
      | apiError | typeError | keyError | indexError | attributeError | arithmeticError | other =>
        exact iff_of_false nofun nofun
  | null | bool | num | arr | obj => exact iff_of_true ⟨_, rfl⟩ nofun

theorem mapM_length {α β : Type} {f : α → Option β} {l : List α} {r : List β}
    (h : l.mapM f = some r) : r.length = l.length := by
  induction l generalizing r with
  | nil =>
    obtain rfl := Option.some.inj h
    rfl
  | cons a l ih =>
    rw [List.mapM_cons] at h
    obtain ⟨b, -, h⟩ := Option.bind_eq_some_iff.mp h
    obtain ⟨rest, hrest, h⟩ := Option.bind_eq_some_iff.mp h
    obtain rfl := Option.some.inj h
    rw [List.length_cons, List.length_cons, ih hrest]

theorem Priced.len {raw : Json} {prices : List Dec} (h : Priced tx gamma raw prices) :
    raw.len = .ok prices.length := by
  obtain ⟨items, hitems, hprices⟩ := h.parsed
  rw [len_of_iter hitems, mapM_length hprices]

/-- With prices to read, all there is to the result is the winner among them. -/
theorem Priced.detect {raw : Json} {prices : List Dec} (h : Priced tx gamma raw prices)
    (hpos : 0 < prices.length) :
    detectWinningOutcome tx gamma = winnerOf tx (orEmpty (gamma.get "outcomes")) prices := by
  have hraw : raw.truthy = true := length_pos_of_len h.len hpos
  have hfull : (orEmpty (gamma.get "outcomes")).truthy = true :=
    length_pos_of_len (h.sized.trans h.len) hpos
  obtain ⟨items, hitems, hprices⟩ := h.parsed
  unfold detectWinningOutcome
  rw [h.closed, h.decoded]
  dsimp only [bind, Except.bind]
  rw [hfull, hraw, h.sized, h.len, hitems]
  dsimp only
  rw [hprices, if_neg (by decide), if_neg (by decide), if_neg (not_not.mpr rfl)]

/-- On a market whose outcomes are a list, `detect_winning_outcome` raises unless the
market is open or legible. -/
theorem detectWinningOutcome_ok_iff (houtcomes : listLike (gamma.get "outcomes") = true) :
    (∃ winner, detectWinningOutcome tx gamma = .ok winner) ↔
    ((gamma.get "closed").truthy = true → Legible tx gamma) := by
  cases hclosed : (gamma.get "closed").truthy with
  | false =>
    refine iff_of_true ⟨none, ?_⟩ nofun
    unfold detectWinningOutcome
    rw [hclosed]
    rfl
  | true =>
    rw [imp_iff_right rfl]
    constructor
    · rintro ⟨winner, h⟩
      have hwinner : ∀ raw prices, Priced tx gamma raw prices →
          (∀ p ∈ prices, signals p = false) ∧ ∀ i, SoleWinner prices i →
          Settling (orEmpty (gamma.get "outcomes")) prices := by
        intro raw prices hpriced
        cases prices with
        | nil =>
          exact ⟨fun _ hp => (List.not_mem_nil hp).elim,
            fun i hsole => (Nat.not_lt_zero i hsole.lt).elim⟩
        | cons p prices =>
          refine (winnerOf_ok_iff tx (hpriced.sized.trans hpriced.len)).mp ⟨winner, ?_⟩
          rw [← hpriced.detect (Nat.zero_lt_succ _)]
          exact h
      refine ⟨pricesRaw_ok_iff.mp ?_, fun raw hraw hfull => ?_,
        fun raw prices hp => (hwinner raw prices hp).1,
        fun raw prices i hp => (hwinner raw prices hp).2 i⟩
      · unfold detectWinningOutcome at h
        rw [hclosed] at h
        obtain ⟨raw?, hraw, -⟩ := bind_ok h
        exact ⟨raw?, hraw⟩
      · cases htruthy : raw.truthy with
        | false => exact listLike_of_falsy htruthy
        | true =>
          unfold detectWinningOutcome at h
          rw [hclosed, hraw] at h
          dsimp only [bind, Except.bind] at h
          rw [orEmpty_of_truthy hfull, hfull, htruthy, if_neg (by decide), if_neg (by decide)] at h
          obtain ⟨n, -, h⟩ := bind_ok h
          obtain ⟨n', hn', -⟩ := bind_ok h
          obtain ⟨items, hitems⟩ := iter_of_len hn'
          refine listLike_iff.mpr ⟨items, ?_⟩
          rw [orEmpty_of_truthy htruthy]
          exact hitems
    · intro h
      obtain ⟨raw?, hraw⟩ := pricesRaw_ok_iff.mpr h.decoded
      unfold detectWinningOutcome
      rw [hclosed, hraw]
      dsimp only [bind, Except.bind]
      cases raw? with
      | none => exact ⟨none, rfl⟩
      | some raw =>
        rw [if_neg (by decide)]
        dsimp only
        split
        · exact ⟨none, rfl⟩
        · next htruthy =>
          rw [Bool.or_eq_true, not_or, Bool.not_eq_true', Bool.not_eq_false, Bool.not_eq_true',
            Bool.not_eq_false, orEmpty_truthy] at htruthy
          obtain ⟨hfull, hpriced⟩ := htruthy
          obtain ⟨items, hitems⟩ := listLike_iff.mp (h.sized raw hraw hfull)
          rw [orEmpty_of_truthy hpriced] at hitems
          obtain ⟨names, hnames⟩ := listLike_iff.mp houtcomes
          rw [len_of_iter hnames, len_of_iter hitems, hitems]
          dsimp only
          split
          · exact ⟨none, rfl⟩
          · next hlen =>
            cases hprices : items.mapM Json.toDec with
            | none => exact ⟨none, rfl⟩
            | some prices =>
              have hpriced : Priced tx gamma raw prices :=
                ⟨hclosed, hraw, by rw [len_of_iter hnames, len_of_iter hitems, not_not.mp hlen],
                  items, hitems, hprices⟩
              exact (winnerOf_ok_iff tx (hpriced.sized.trans hpriced.len)).mpr
                ⟨h.quiet raw prices hpriced, fun i => h.settling raw prices i hpriced⟩

theorem detectWinningOutcome_iff {winner : String} :
    detectWinningOutcome tx gamma = .ok (some winner) ↔ Winner tx gamma winner := by
  constructor
  · exact detectWinningOutcome_some
  · rintro ⟨hclosed, raw, items, prices, i, o, hraw, hitems, hprices, hlen, hrange, hsole, ho, rfl⟩
    have hpriced : Priced tx gamma raw prices := ⟨hclosed, hraw, hlen, items, hitems, hprices⟩
    have hall : ∀ p ∈ prices, inRange p = true := fun p hp => inRange_iff.mpr (hrange p hp)
    rw [hpriced.detect (Nat.zero_lt_of_lt (SoleWinner.lt hsole))]
    have hquiet : ∀ p ∈ prices, signals p = false := by
      intro p hp
      cases p with
      | nan signaling neg payload => cases hall _ hp
      | inf | fin => rfl
    obtain ⟨l, hl⟩ := winnersFrom_ok_iff.mpr hquiet
    obtain rfl := (winnersFrom_sole hl).mpr hsole
    unfold winnerOf
    rw [hl]
    dsimp only [bind, Except.bind]
    rw [anyOutOfRange_inRange hall, ho]
    rfl

end Polycopy
