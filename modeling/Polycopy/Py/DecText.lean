import Mathlib.Data.List.TakeWhile
import Polycopy.Py.Context

/-!
# The canonical text of a decimal

`format(d.normalize(), "f")` shows a sign and a size, and nothing about how `d` was
written (`text_agree`).  The size is that of `d` rounded to the context, so two
decimals can be equal without one text (`Split`) and have one text without being
equal (`Collapsed`).
-/

namespace Py

namespace Dec

/-! ## What a text shows -/

inductive Shown
  | nan (neg : Bool) (payload : Nat)
  | inf (neg : Bool)
  | number (neg : Bool) (size : ℚ)
  deriving DecidableEq

def shown : Dec → Shown
  | .nan _ neg payload => .nan neg payload
  | .inf neg => .inf neg
  | .fin neg coef exp => .number neg (scale coef exp)

def negative : Dec → Bool
  | .nan _ neg _ => neg
  | .inf neg => neg
  | .fin neg _ _ => neg

/-- The digits with at least `n + 2` places. -/
def padded (coef n : Nat) : List Char :=
  List.replicate (n + 2 - (Nat.toDigits 10 coef).length) '0' ++ Nat.toDigits 10 coef

/-- `formatF` without the sign. -/
def body : Dec → List Char
  | .nan _ _ payload => ['N', 'a', 'N'] ++ if payload = 0 then [] else Nat.toDigits 10 payload
  | .inf _ => "Infinity".toList
  | .fin _ coef (.ofNat n) =>
    if coef = 0 then ['0'] else Nat.toDigits 10 coef ++ List.replicate n '0'
  | .fin _ coef (.negSucc n) =>
    (padded coef n).take ((padded coef n).length - (n + 1)) ++
      '.' :: (padded coef n).drop ((padded coef n).length - (n + 1))

theorem body_whole (neg : Bool) (coef n : Nat) :
    body (.fin neg coef (.ofNat n)) = if coef = 0 then ['0']
    else Nat.toDigits 10 coef ++ List.replicate n '0' := rfl

theorem body_point (neg : Bool) (coef n : Nat) :
    body (.fin neg coef (.negSucc n)) = (padded coef n).take ((padded coef n).length - (n + 1)) ++
      '.' :: (padded coef n).drop ((padded coef n).length - (n + 1)) := rfl

theorem signText_toList (neg : Bool) : (signText neg).toList = if neg then ['-'] else [] := by
  cases neg <;> rfl

theorem formatF_toList (d : Dec) :
    (formatF d).toList = (if d.negative then ['-'] else []) ++ body d := by
  rw [← signText_toList]
  cases d with
  | nan s neg payload =>
    unfold formatF body negative
    by_cases h : payload = 0 <;> simp [h]
  | inf neg => exact String.toList_append
  | fin neg coef exp =>
    cases exp with
    | ofNat n =>
      rw [body_whole]
      unfold formatF negative
      by_cases h : coef = 0 <;> simp [h]
    | negSucc n =>
      rw [body_point]
      unfold formatF negative
      simp [padded]

theorem isDigit_of_mem_padded {coef n : Nat} {c : Char}
    (h : c ∈ padded coef n) : c.isDigit = true := by
  rcases List.mem_append.mp h with h | h
  · rw [(List.mem_replicate.mp h).2]
    rfl
  · exact Nat.isDigit_of_mem_toDigits (by norm_num) (by norm_num) h

/-- The text of a number has no letters. -/
theorem mem_body_fin {neg : Bool} {coef : Nat} {exp : Int} {c : Char}
    (h : c ∈ body (.fin neg coef exp)) :
    c.isDigit = true ∨ c = '.' := by
  cases exp with
  | ofNat n =>
    rw [body_whole] at h
    left
    split at h
    · rw [List.mem_singleton.mp h]
      rfl
    · rcases List.mem_append.mp h with h | h
      · exact Nat.isDigit_of_mem_toDigits (by norm_num) (by norm_num) h
      · rw [(List.mem_replicate.mp h).2]
        rfl
  | negSucc n =>
    rw [body_point] at h
    rcases List.mem_append.mp h with h | h
    · exact Or.inl (isDigit_of_mem_padded (List.mem_of_mem_take h))
    · rcases List.mem_cons.mp h with rfl | h
      · exact Or.inr rfl
      · exact Or.inl (isDigit_of_mem_padded (List.mem_of_mem_drop h))

/-- The letters a text may have beside digits. -/
theorem mem_body {d : Dec} {c : Char} (h : c ∈ body d) :
    c.isDigit = true ∨ c ∈ ['.', 'N', 'a', 'I', 'n', 'f', 'i', 't', 'y'] := by
  cases d with
  | nan s neg payload =>
    rcases List.mem_append.mp h with h | h
    · right
      simp only [List.mem_cons, List.not_mem_nil, or_false] at h ⊢
      tauto
    · split at h
      · cases h
      · exact Or.inl (Nat.isDigit_of_mem_toDigits (by norm_num) (by norm_num) h)
  | inf neg =>
    right
    change c ∈ ['I', 'n', 'f', 'i', 'n', 'i', 't', 'y'] at h
    simp only [List.mem_cons, List.not_mem_nil, or_false] at h ⊢
    tauto
  | fin neg coef exp =>
    refine (mem_body_fin h).imp_right ?_
    rintro rfl
    exact List.mem_cons_self

/-! ## Reading a text back -/

/-- The number a text without sign shows. -/
def readBody (cs : List Char) : ℚ :=
  (natOfDigits (cs.filter (· ≠ '.')) : ℚ) / (10 ^ ((cs.dropWhile (· ≠ '.')).length - 1) : Nat)

theorem natOfDigits_eq (ds : List Char) : natOfDigits ds = Nat.ofDigitChars 10 ds 0 := rfl

theorem no_point {ds : List Char} (h : ∀ c ∈ ds, c.isDigit = true) :
    ∀ c ∈ ds, decide (c ≠ '.') = true := by
  intro c hc
  refine decide_eq_true fun he => ?_
  have := h c hc
  rw [he] at this
  exact absurd this (by decide)

theorem readBody_whole {ds : List Char} (h : ∀ c ∈ ds, c.isDigit = true) :
    readBody ds = natOfDigits ds := by
  unfold readBody
  rw [List.filter_eq_self.mpr (no_point h), List.dropWhile_eq_nil_iff.mpr (no_point h)]
  simp

theorem readBody_point {ds es : List Char} (hd : ∀ c ∈ ds, c.isDigit = true)
    (he : ∀ c ∈ es, c.isDigit = true) :
    readBody (ds ++ '.' :: es) = (natOfDigits (ds ++ es) : ℚ) / (10 ^ es.length : Nat) := by
  unfold readBody
  rw [List.filter_append, List.filter_eq_self.mpr (no_point hd), List.filter_cons_of_neg (by simp),
    List.filter_eq_self.mpr (no_point he), List.dropWhile_append_of_pos (no_point hd)]
  simp

theorem readBody_fin (neg : Bool) (coef : Nat) (exp : Int) :
    readBody (body (.fin neg coef exp)) = scale coef exp := by
  cases exp with
  | ofNat n =>
    rw [readBody_whole]
    · rw [body_whole]
      by_cases h : coef = 0
      · rw [if_pos h, scale_eq_zero.mpr h]
        rfl
      · rw [scale_eq, if_neg h, natOfDigits_eq, Nat.ofDigitChars_append,
          Nat.ofDigitChars_ten_toDigits,
          Nat.ofDigitChars_replicate_zero, Int.ofNat_eq_natCast, zpow_natCast]
        push_cast
        ring
    · intro c hc
      refine (mem_body_fin hc).resolve_right ?_
      rintro rfl
      rw [body_whole] at hc
      split at hc
      · simp at hc
      · rcases List.mem_append.mp hc with h | h
        · exact absurd (Nat.isDigit_of_mem_toDigits (by norm_num) (by norm_num) h) (by decide)
        · exact absurd (List.mem_replicate.mp h).2 (by decide)
  | negSucc n =>
    have hlen : n + 1 ≤ (padded coef n).length := by
      unfold padded
      rw [List.length_append, List.length_replicate]
      omega
    have hvalue : natOfDigits (padded coef n) = coef := by
      unfold padded
      rw [natOfDigits_eq, Nat.ofDigitChars_append, Nat.ofDigitChars_replicate_zero, Nat.mul_zero,
        Nat.ofDigitChars_ten_toDigits]
    rw [body_point, readBody_point (fun c hc => isDigit_of_mem_padded (List.mem_of_mem_take hc))
      (fun c hc => isDigit_of_mem_padded (List.mem_of_mem_drop hc)),
      List.take_append_drop, hvalue, List.length_drop, Nat.sub_sub_self hlen]
    rfl

theorem minus_not_mem (d : Dec) : '-' ∉ body d := by
  intro h
  rcases mem_body h with h | h
  · exact absurd h (by decide)
  · exact absurd h (by decide)

theorem colon_not_mem (d : Dec) : ':' ∉ (formatF d).toList := by
  rw [formatF_toList]
  intro h
  rcases List.mem_append.mp h with h | h
  · split at h
    · simp at h
    · cases h
  · rcases mem_body h with h | h
    · exact absurd h (by decide)
    · exact absurd h (by decide)

/-- Two texts are one only when they show the same. -/
theorem formatF_inj {a b : Dec} (h : formatF a = formatF b) : shown a = shown b := by
  have hlist := congrArg String.toList h
  rw [formatF_toList, formatF_toList] at hlist
  obtain ⟨hneg, hbody⟩ : a.negative = b.negative ∧ body a = body b := by
    cases ha : a.negative <;> cases hb : b.negative <;> rw [ha, hb] at hlist
    · exact ⟨rfl, hlist⟩
    · have hmem : '-' ∈ body a := by
        rw [show body a = '-' :: body b from hlist]
        exact List.mem_cons_self
      exact absurd hmem (minus_not_mem a)
    · have hmem : '-' ∈ body b := by
        rw [show body b = '-' :: body a from hlist.symm]
        exact List.mem_cons_self
      exact absurd hmem (minus_not_mem b)
    · exact ⟨rfl, (List.cons.inj hlist).2⟩
  -- a letter tells the special values from the numbers
  have hletter : ∀ {c : Char} {neg : Bool} {coef : Nat} {exp : Int}, c.isDigit = false → c ≠ '.' →
      c ∉ body (.fin neg coef exp) := by
    intro c neg coef exp hd hp hc
    rcases mem_body_fin hc with h | h
    · rw [hd] at h
      cases h
    · exact hp h
  cases a with
  | nan s neg payload =>
    cases b with
    | nan s' neg' payload' =>
      obtain rfl : neg = neg' := hneg
      have hp : ∀ p : Nat, natOfDigits (if p = 0 then [] else Nat.toDigits 10 p) = p := by
        intro p
        split
        · next h0 => rw [h0]; rfl
        · rw [natOfDigits_eq, Nat.ofDigitChars_ten_toDigits]
      have htail : (if payload = 0 then [] else Nat.toDigits 10 payload) =
          if payload' = 0 then [] else Nat.toDigits 10 payload' := List.append_cancel_left hbody
      have hpay : payload = payload' := by rw [← hp payload, htail, hp]
      rw [shown, shown, hpay]
    | inf neg' =>
      exact absurd (Option.some.inj (congrArg List.head? hbody)) (by decide : ¬ 'N' = 'I')
    | fin neg' coef exp =>
      have hmem : 'N' ∈ body (.fin neg' coef exp) := hbody ▸ List.mem_cons_self
      exact absurd hmem (hletter rfl (by decide))
  | inf neg =>
    cases b with
    | nan s' neg' payload' =>
      exact absurd (Option.some.inj (congrArg List.head? hbody)) (by decide : ¬ 'I' = 'N')
    | inf neg' => rw [shown, shown, show neg = neg' from hneg]
    | fin neg' coef exp =>
      have hmem : 'I' ∈ body (.fin neg' coef exp) := hbody ▸ List.mem_cons_self
      exact absurd hmem (hletter rfl (by decide))
  | fin neg coef exp =>
    cases b with
    | nan s' neg' payload' =>
      have hmem : 'N' ∈ body (.fin neg coef exp) := hbody ▸ List.mem_cons_self
      exact absurd hmem (hletter rfl (by decide))
    | inf neg' =>
      have hmem : 'I' ∈ body (.fin neg coef exp) := hbody ▸ List.mem_cons_self
      exact absurd hmem (hletter rfl (by decide))
    | fin neg' coef' exp' =>
      obtain rfl : neg = neg' := hneg
      rw [shown, shown, ← readBody_fin neg coef exp, ← readBody_fin neg coef' exp', hbody]

/-! ## Rounding by value -/

theorem divHalfEven_mul (n k m : Nat) : divHalfEven (n * 10 ^ m) (k + m) = divHalfEven n k := by
  have hpos : 0 < 10 ^ m := Nat.pow_pos (by norm_num)
  have hq : n * 10 ^ m / 10 ^ (k + m) = n / 10 ^ k := by
    rw [pow_add, Nat.mul_div_mul_right _ _ hpos]
  have hr : 2 * (n * 10 ^ m % 10 ^ (k + m)) = 2 * (n % 10 ^ k) * 10 ^ m := by
    rw [pow_add, Nat.mul_mod_mul_right, Nat.mul_assoc]
  unfold divHalfEven
  dsimp only
  rw [hq, hr, pow_add]
  simp only [Nat.mul_lt_mul_right hpos]

theorem digits_mul (n m : Nat) (h : 0 < n) : digits (n * 10 ^ m) = digits n + m := by
  apply le_antisymm
  · rw [digits_le_iff (Nat.add_pos_left (digits_pos n) m), pow_add]
    exact Nat.mul_lt_mul_of_pos_right (lt_ten_digits n) (Nat.pow_pos (by norm_num))
  · by_contra hlt
    have hle : digits (n * 10 ^ m) ≤ digits n - 1 + m := by
      have := digits_pos n
      omega
    have hpos : 0 < digits n - 1 + m := (digits_pos _).trans_le hle
    have hbig := (digits_le_iff hpos).mp hle
    rw [pow_add] at hbig
    exact absurd (Nat.mul_le_mul_right (10 ^ m) (ten_digits_le h)) (not_le.mpr hbig)

/-- The size of a decimal rounded to the context. -/
def rounded (coef : Nat) (exp : Int) : ℚ :=
  if coef = 0 then 0 else scale (fix coef exp).1 (fix coef exp).2

theorem rounded_lower {coef : Nat} (h : 0 < coef) (exp : Int) (k : Nat) :
    rounded (coef * 10 ^ k) (exp - k) = rounded coef exp := by
  have h' : 0 < coef * 10 ^ k := Nat.mul_pos h (Nat.pow_pos (by norm_num))
  have hscale : ∀ e : Int, e ≤ exp → scale coef exp = scale (coef * 10 ^ (exp - e).toNat) e :=
    fun e he => scale_lower he
  unfold rounded
  rw [if_neg h.ne', if_neg h'.ne']
  unfold fix
  dsimp only
  rw [digits_mul coef k h, show ((digits coef + k : Nat) : Int) + (exp - k) - prec =
    digits coef + exp - prec by push_cast; ring]
  generalize hL : max ((digits coef : Int) + exp - prec) etiny = L
  have hprec : ((prec : Nat) : Int) = 28 := rfl
  rcases lt_or_ge exp L with hlow | hhigh
  · -- both are cut at the same place
    rw [if_pos hlow, if_pos (by omega),
      show (L - (exp - k)).toNat = (L - exp).toNat + k by omega, divHalfEven_mul]
  · rw [if_neg (not_lt.mpr hhigh)]
    rcases lt_or_ge (exp - k) L with hlow | hhigh'
    · -- only zeros are cut
      obtain ⟨j, hj⟩ : ∃ j : Nat, exp = L + j := ⟨(exp - L).toNat, by omega⟩
      have hc : divHalfEven (coef * 10 ^ k) (L - (exp - k)).toNat = coef * 10 ^ j := by
        have hk : k = j + (L - (exp - k)).toNat := by omega
        have hcut := divHalfEven_mul (coef * 10 ^ j) 0 (L - (exp - k)).toNat
        rw [Nat.mul_assoc, ← pow_add, ← hk, Nat.zero_add] at hcut
        rw [hcut]
        simp [divHalfEven, Nat.mod_one]
      have hsmall : ¬ prec < digits (coef * 10 ^ j) := by
        have hle : (digits coef : Int) + exp - prec ≤ L := hL ▸ le_max_left _ _
        rw [digits_mul coef j h]
        have hp : prec = 28 := rfl
        omega
      rw [if_pos hlow, hc, if_neg hsmall, hj, scale_places]
    · rw [if_neg (not_lt.mpr hhigh'), hscale (exp - k) (by omega),
        show (exp - (exp - k)).toNat = k by omega]

/-- Rounding does not see how a number is written. -/
theorem rounded_congr {coef coef' : Nat} {exp exp' : Int} (h : scale coef exp = scale coef' exp') :
    rounded coef exp = rounded coef' exp' := by
  have hzero : coef = 0 ↔ coef' = 0 := by rw [← scale_eq_zero (e := exp), h, scale_eq_zero]
  rcases Nat.eq_zero_or_pos coef with h0 | hpos
  · rw [rounded, rounded, if_pos h0, if_pos (hzero.mp h0)]
  have hpos' : 0 < coef' := Nat.pos_of_ne_zero fun h0 => hpos.ne' (hzero.mpr h0)
  have key : ∀ {a b : Nat} {x y : Int}, 0 < b → x ≤ y → scale a x = scale b y →
      rounded a x = rounded b y := by
    intro a b x y hb hxy heq
    rw [scale_lower hxy] at heq
    have ha : a = b * 10 ^ (y - x).toNat :=
      le_antisymm (scale_le_scale.mp heq.le) (scale_le_scale.mp heq.ge)
    have hlow := rounded_lower hb y (y - x).toNat
    rwa [show y - ((y - x).toNat : Int) = x by omega, ← ha] at hlow
  rcases le_total exp exp' with hle | hle
  · exact key hpos' hle h
  · exact (key hpos hle h.symm).symm

/-! ## Normalizing -/

/-- A decimal in the form `normalize` gives it. -/
def Reduced : Dec → Prop
  | .nan signaling _ _ => signaling = false
  | .inf _ => True
  | .fin _ coef exp => (coef = 0 ∧ exp = 0) ∨ (0 < coef ∧ exp ≤ emax ∧ (coef % 10 = 0 → exp = emax))

theorem stripZeros_spec (fuel : Nat) : ∀ {c : Nat} {e : Int}, 0 < c → c < 10 ^ fuel → e ≤ emax →
    scale (stripZeros fuel c e).1 (stripZeros fuel c e).2 = scale c e ∧
      0 < (stripZeros fuel c e).1 ∧
      (stripZeros fuel c e).2 ≤ emax ∧ ((stripZeros fuel c e).1 % 10 = 0 →
        (stripZeros fuel c e).2 = emax) := by
  induction fuel with
  | zero =>
    intro c e hc hlt _
    omega
  | succ fuel ih =>
    intro c e hc hlt he
    unfold stripZeros
    split
    · next h =>
      obtain ⟨hmod, hlt'⟩ := h
      have hten : c = 10 * (c / 10) := by omega
      obtain ⟨h1, h2, h3, h4⟩ :=
        ih (c := c / 10) (e := e + 1) (by omega) (by rw [pow_succ] at hlt; omega) (by omega)
      refine ⟨?_, h2, h3, h4⟩
      rw [h1, ← scale_ten, ← hten]
    · next h =>
      refine ⟨rfl, hc, he, fun hmod => ?_⟩
      by_contra hne
      exact h ⟨hmod, lt_of_le_of_ne he hne⟩

/-- What the canonical text shows; none when `normalize` raises. -/
def canon : Dec → Option Shown
  | .nan true _ _ => none
  | .nan false neg payload => some (.nan neg (payload % 10 ^ prec))
  | .inf neg => some (.inf neg)
  | .fin neg coef exp =>
    if scale 1 (emax + 1) ≤ rounded coef exp then none else some (.number neg (rounded coef exp))

theorem scale_one_pos (e : Int) : 0 < scale 1 e := lt_of_le_of_ne (scale_nonneg 1 e) fun h => by
  have := scale_eq_zero.mp h.symm
  omega

theorem canon_fin (neg : Bool) (coef : Nat) (exp : Int) :
    canon (.fin neg coef exp) =
      if scale 1 (emax + 1) ≤ rounded coef exp then none
      else some (.number neg (rounded coef exp)) := rfl

theorem normalize_fin (neg : Bool) (coef : Nat) (exp : Int) :
    normalize (.fin neg coef exp) =
      if coef = 0 then .ok (.fin neg 0 0)
      else if emax < (fix coef exp).2 + digits (fix coef exp).1 - 1 then .error .arithmeticError
      else if (fix coef exp).1 = 0 then .ok (.fin neg 0 0)
      else .ok (.fin neg (stripZeros (digits (fix coef exp).1) (fix coef exp).1 (fix coef exp).2).1
        (stripZeros (digits (fix coef exp).1) (fix coef exp).1 (fix coef exp).2).2) := rfl

theorem normalize_canon (d : Dec) :
    (canon d = none ∧ normalize d = .error .arithmeticError) ∨
      ∃ d', canon d = some (shown d') ∧ normalize d = .ok d' ∧ Reduced d' := by
  cases d with
  | nan signaling neg payload =>
    cases signaling with
    | true => exact Or.inl ⟨rfl, rfl⟩
    | false => exact Or.inr ⟨_, rfl, rfl, rfl⟩
  | inf neg => exact Or.inr ⟨_, rfl, rfl, trivial⟩
  | fin neg coef exp =>
    have hzero : ¬ scale 1 (emax + 1) ≤ 0 := not_le.mpr (scale_one_pos _)
    have hshown : shown (.fin neg 0 0) = .number neg 0 := by rw [shown, scale_eq_zero.mpr rfl]
    have htop : scale 1 (emax + 1) = scale (10 ^ 28) (emax - 27) := by
      rw [show emax + 1 = emax - 27 + (28 : Nat) by push_cast; ring, scale_places, Nat.one_mul]
    rw [canon_fin, normalize_fin]
    unfold rounded
    by_cases h0 : coef = 0
    · rw [if_pos h0, if_neg hzero, if_pos h0]
      exact Or.inr ⟨_, by rw [hshown], rfl, Or.inl ⟨rfl, rfl⟩⟩
    · rw [if_neg h0, if_neg h0]
      have hfixed := fix_fixed exp (Nat.pos_of_ne_zero h0)
      generalize (fix coef exp).1 = c, (fix coef exp).2 = e at hfixed
      rcases Nat.eq_zero_or_pos c with hc | hc
      · -- too small for the context: zero with the sign kept
        subst hc
        have htiny : e = etiny := by
          cases hfixed with
          | zero _ hn => exact absurd hn h0
          | exact => exact absurd rfl h0
          | rounded _ _ _ _ _ _ _ _ _ hn => exact hn rfl
        have hfits : ¬ emax < e + digits 0 - 1 := by
          rw [htiny]
          decide
        rw [scale_eq_zero.mpr rfl, if_neg hzero, if_neg hfits, if_pos rfl]
        exact Or.inr ⟨_, by rw [hshown], rfl, Or.inl ⟨rfl, rfl⟩⟩
      · have hover := overflow_iff (e := e) hc
        rw [← htop] at hover
        by_cases hov : scale 1 (emax + 1) ≤ scale c e
        · rw [if_pos hov, if_pos (hover.mpr hov)]
          exact Or.inl ⟨rfl, rfl⟩
        · have hfits : ¬ emax < e + digits c - 1 := fun h => hov (hover.mp h)
          have he : e ≤ emax := by
            have := digits_pos c
            omega
          rw [if_neg hov, if_neg hfits, if_neg hc.ne']
          obtain ⟨h1, h2, h3, h4⟩ := stripZeros_spec (digits c) hc (lt_ten_digits c) he
          exact Or.inr ⟨_, by rw [shown, h1], rfl, Or.inr ⟨h2, h3, h4⟩⟩

/-- A reduced decimal is told by what it shows. -/
theorem Reduced.ext {a b : Dec} (ha : Reduced a) (hb : Reduced b)
    (h : shown a = shown b) : a = b := by
  cases a with
  | nan s neg payload =>
    cases b with
    | nan s' neg' payload' =>
      obtain ⟨rfl, rfl⟩ := Shown.nan.inj h
      rw [show s = false from ha, show s' = false from hb]
    | inf | fin => cases h
  | inf neg =>
    cases b with
    | inf neg' => rw [Shown.inf.inj h]
    | nan | fin => cases h
  | fin neg coef exp =>
    cases b with
    | nan | inf => cases h
    | fin neg' coef' exp' =>
      obtain ⟨rfl, hscale⟩ := Shown.number.inj h
      have hzero : coef = 0 ↔ coef' = 0 := by rw [← scale_eq_zero (e := exp), hscale, scale_eq_zero]
      rcases ha with ⟨h0, he⟩ | ⟨hpos, hmax, hten⟩
      · rcases hb with ⟨h0', he'⟩ | ⟨hpos', -, -⟩
        · rw [h0, he, h0', he']
        · exact absurd (hzero.mp h0) hpos'.ne'
      · rcases hb with ⟨h0', -⟩ | ⟨hpos', hmax', hten'⟩
        · exact absurd (hzero.mpr h0') hpos.ne'
        · -- the one with the lower exponent would end in a zero
          have key : ∀ {c d : Nat} {x y : Int}, y ≤ emax → (c % 10 = 0 → x = emax) →
              scale c x = scale d y → ¬ x < y := by
            intro c d x y hy hc heq hlt
            rw [scale_lower hlt.le] at heq
            have hcd : c = d * 10 ^ (y - x).toNat :=
              le_antisymm (scale_le_scale.mp heq.le) (scale_le_scale.mp heq.ge)
            obtain ⟨k, hk⟩ : ∃ k, (y - x).toNat = k + 1 := ⟨(y - x).toNat - 1, by omega⟩
            have hmod : c % 10 = 0 := by
              rw [hcd, hk, pow_succ, ← Nat.mul_assoc]
              exact Nat.mul_mod_left _ 10
            have := hc hmod
            omega
          have hexp : exp = exp' :=
            le_antisymm (not_lt.mp (key hmax hten' hscale.symm)) (not_lt.mp (key hmax' hten hscale))
          subst hexp
          have hcoef : coef = coef' :=
            le_antisymm (scale_le_scale.mp hscale.le) (scale_le_scale.mp hscale.ge)
          rw [hcoef]

/-- **Two decimals have one canonical text** exactly when it shows the same. -/
theorem text_agree (a b : Dec) :
    (∃ s, (normalize a).map formatF = .ok s ∧ (normalize b).map formatF = .ok s) ↔
    canon a = canon b ∧ (canon a).isSome := by
  rcases normalize_canon a with ⟨hca, hna⟩ | ⟨a', hca, hna, hra⟩
  · simp [hca, hna, Except.map]
  · rcases normalize_canon b with ⟨hcb, hnb⟩ | ⟨b', hcb, hnb, hrb⟩
    · simp [hca, hcb, hnb, Except.map]
    · rw [hca, hcb, hna, hnb]
      constructor
      · rintro ⟨s, hs, hs'⟩
        refine ⟨congrArg some (formatF_inj ?_), rfl⟩
        exact (Except.ok.inj hs).trans (Except.ok.inj hs').symm
      · rintro ⟨h, -⟩
        rw [hra.ext hrb (Option.some.inj h)]
        exact ⟨_, rfl, rfl⟩

/-! ## Texts against numbers -/

/-- Equal, but with two texts or none: zeros of two signs, numbers above the context. -/
inductive Split : Dec → Dec → Prop
  | zeros (neg : Bool) (exp exp' : Int) : Split (.fin neg 0 exp) (.fin (!neg) 0 exp')
  | overflow {neg : Bool} {coef coef' : Nat}
      {exp exp' : Int} (same : scale coef exp = scale coef' exp')
      (above : scale 1 (emax + 1) ≤ rounded coef exp) :
      Split (.fin neg coef exp) (.fin neg coef' exp')

/-- Not equal, but with one text: NaNs, and numbers with one rounding. -/
inductive Collapsed : Dec → Dec → Prop
  | nans (neg : Bool) {payload payload' : Nat} (same : payload % 10 ^ prec = payload' % 10 ^ prec) :
      Collapsed (.nan false neg payload) (.nan false neg payload')
  | numbers {neg : Bool} {coef coef' : Nat}
      {exp exp' : Int} (differ : scale coef exp ≠ scale coef' exp')
      (same : rounded coef exp = rounded coef' exp') (fits : rounded coef exp < scale 1 (emax + 1)) :
      Collapsed (.fin neg coef exp) (.fin neg coef' exp')

/-- One text for both. -/
def OneText (a b : Dec) : Prop := (a.same b = true ∧ ¬ Split a b) ∨ Collapsed a b

theorem same_fin {neg neg' : Bool} {coef coef' : Nat} {exp exp' : Int} :
    same (.fin neg coef exp) (.fin neg' coef' exp') = true ↔
      (scale coef exp = scale coef' exp' ∧ (neg = neg' ∨ coef = 0)) := by
  have h1 := scale_nonneg coef exp
  have h2 := scale_nonneg coef' exp'
  have h0 := @scale_eq_zero coef exp
  unfold same value
  rw [decide_eq_true_eq]
  cases neg <;> cases neg' <;> simp only [Bool.false_eq_true, if_false,
    if_true, neg_inj, true_or, and_true, false_or, reduceCtorEq]
  · rw [← h0]
    constructor
    · intro h
      constructor <;> linarith
    · rintro ⟨h, hz⟩
      linarith
  · rw [← h0]
    constructor
    · intro h
      constructor <;> linarith
    · rintro ⟨h, hz⟩
      linarith

theorem Split.same {a b : Dec} (h : Split a b) : a.same b = true := by
  cases h with
  | zeros neg exp exp' =>
    exact same_fin.mpr ⟨by rw [scale_eq_zero.mpr rfl, scale_eq_zero.mpr rfl], Or.inr rfl⟩
  | overflow heq => exact same_fin.mpr ⟨heq, Or.inl rfl⟩

theorem Collapsed.not_same {a b : Dec} (h : Collapsed a b) : ¬ a.same b = true := by
  cases h with
  | nans => exact Bool.false_ne_true
  | numbers hne => exact fun hs => hne (same_fin.mp hs).1

/-- The text of a number shows a number that fits the context. -/
theorem canon_fin_some {neg : Bool} {coef : Nat} {exp : Int} {x : Shown}
    (h : canon (.fin neg coef exp) = some x) :
    x = .number neg (rounded coef exp) ∧ ¬ scale 1 (emax + 1) ≤ rounded coef exp := by
  rw [canon_fin] at h
  split at h
  · cases h
  · next hfits => exact ⟨(Option.some.inj h).symm, hfits⟩

/-- Two numbers with one canonical text. -/
theorem canon_agree_fin {neg neg' : Bool} {coef coef' : Nat} {exp exp' : Int} :
    (canon (.fin neg coef exp) = canon (.fin neg' coef' exp') ∧ (canon (.fin neg coef exp)).isSome) ↔
      neg = neg' ∧ rounded coef exp = rounded coef' exp' ∧
      ¬ scale 1 (emax + 1) ≤ rounded coef exp := by
  constructor
  · rintro ⟨h, hsome⟩
    obtain ⟨x, hx⟩ := Option.isSome_iff_exists.mp hsome
    obtain ⟨rfl, hfits⟩ := canon_fin_some hx
    rw [hx] at h
    obtain ⟨hneg, hr⟩ := Shown.number.inj (canon_fin_some h.symm).1
    exact ⟨hneg, hr, hfits⟩
  · rintro ⟨rfl, hr, hfits⟩
    rw [canon_fin, canon_fin, ← hr, if_neg hfits]
    exact ⟨rfl, rfl⟩

theorem oneText_fin {neg neg' : Bool} {coef coef' : Nat} {exp exp' : Int} :
    OneText (.fin neg coef exp) (.fin neg' coef' exp') ↔
      neg = neg' ∧ rounded coef exp = rounded coef' exp' ∧
      ¬ scale 1 (emax + 1) ≤ rounded coef exp := by
  unfold OneText
  rw [same_fin]
  constructor
  · rintro (⟨⟨hv, hneg⟩, hsplit⟩ | hcol)
    · by_cases heq : neg = neg'
      · subst heq
        exact ⟨rfl, rounded_congr hv, fun h => hsplit (.overflow hv h)⟩
      · obtain rfl := hneg.resolve_left heq
        have h0 : coef' = 0 := scale_eq_zero.mp (hv ▸ scale_eq_zero.mpr rfl)
        obtain rfl : neg' = !neg := by
          cases neg <;> cases neg' <;> first | rfl | exact absurd rfl heq
        rw [h0] at hsplit
        exact absurd (Split.zeros neg exp exp') hsplit
    · cases hcol with
      | numbers _ hr hfits => exact ⟨rfl, hr, not_le.mpr hfits⟩
  · rintro ⟨rfl, hr, hfits⟩
    by_cases hv : scale coef exp = scale coef' exp'
    · refine Or.inl ⟨⟨hv, Or.inl rfl⟩, fun hs => ?_⟩
      generalize hb : Dec.fin neg coef' exp' = b at hs
      cases hs with
      | zeros => cases neg <;> cases hb
      | overflow _ habove => exact hfits habove
    · exact Or.inr (.numbers hv hr (not_le.mp hfits))

theorem canon_agree (a b : Dec) : (canon a = canon b ∧ (canon a).isSome) ↔ OneText a b := by
  cases a with
  | fin neg coef exp =>
    cases b with
    | fin neg' coef' exp' => rw [canon_agree_fin, oneText_fin]
    | nan s' neg' payload' =>
      refine iff_of_false ?_ ?_
      · rintro ⟨h, hsome⟩
        obtain ⟨x, hx⟩ := Option.isSome_iff_exists.mp hsome
        rw [hx, (canon_fin_some hx).1] at h
        cases s' <;> cases h
      · rintro (⟨h, -⟩ | h) <;> cases h
    | inf neg' =>
      refine iff_of_false ?_ ?_
      · rintro ⟨h, hsome⟩
        obtain ⟨x, hx⟩ := Option.isSome_iff_exists.mp hsome
        rw [hx, (canon_fin_some hx).1] at h
        cases h
      · rintro (⟨h, -⟩ | h) <;> cases h
  | nan s neg payload =>
    cases s with
    | true =>
      refine iff_of_false (fun h => Bool.false_ne_true h.2) ?_
      rintro (⟨h, -⟩ | h)
      · cases b <;> cases h
      · cases h
    | false =>
      cases b with
      | nan s' neg' payload' =>
        constructor
        · rintro ⟨h, -⟩
          cases s' with
          | true => cases h
          | false =>
            obtain ⟨rfl, hp⟩ := Shown.nan.inj (Option.some.inj h)
            exact Or.inr (.nans neg hp)
        · rintro (⟨h, -⟩ | h)
          · cases h
          · cases h with
            | nans _ hp => exact ⟨congrArg (fun p => some (Shown.nan neg p)) hp, rfl⟩
      | inf neg' =>
        refine iff_of_false (fun h => by cases h.1) ?_
        rintro (⟨h, -⟩ | h) <;> cases h
      | fin neg' coef' exp' =>
        refine iff_of_false (fun h => by cases (canon_fin_some h.1.symm).1) ?_
        rintro (⟨h, -⟩ | h) <;> cases h
  | inf neg =>
    cases b with
    | inf neg' =>
      constructor
      · rintro ⟨h, -⟩
        obtain rfl := Shown.inf.inj (Option.some.inj h)
        exact Or.inl ⟨decide_eq_true rfl, fun hs => nomatch hs⟩
      · rintro (⟨h, -⟩ | h)
        · obtain rfl := of_decide_eq_true h
          exact ⟨rfl, rfl⟩
        · cases h
    | nan s' neg' payload' =>
      refine iff_of_false (fun h => by cases s' <;> cases h.1) ?_
      rintro (⟨h, -⟩ | h) <;> cases h
    | fin neg' coef' exp' =>
      refine iff_of_false (fun h => by cases (canon_fin_some h.1.symm).1) ?_
      rintro (⟨h, -⟩ | h) <;> cases h

end Dec

end Py
