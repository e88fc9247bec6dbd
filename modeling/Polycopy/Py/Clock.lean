import Polycopy.Py.Dec

/-!
# Exact timestamps

`exact_clock.py`: a timestamp is read as whole microseconds since 1970, and a text
with more precision, or without an explicit zone, is refused. `clock` of
`poly2-comparison-checkpoint.py` writes an aware `datetime` and reads it back at once.

    fixed w n          the `w` digits of `n`
    epochMicros text   the instant a text names
    Aware              a `datetime` with a zone, `Aware.instant` the instant it is
    Stamp              one that `clock` takes

`epochMicros_clock`: an instant survives the text, wherever `clock` gives one.
-/

namespace Py.Clock

/-! ## Fields of digits -/

/-- `n` with `w` digits, the higher ones cut off. -/
def fixed : Nat → Nat → List Char
  | 0, _ => []
  | w + 1, n => fixed w (n / 10) ++ [Nat.digitChar (n % 10)]

/-- `\d{w}` and the rest. -/
def field (w : Nat) (cs : List Char) : Option (Nat × List Char) :=
  if (cs.take w).length = w ∧ (cs.take w).all Char.isDigit then
    some (Dec.natOfDigits (cs.take w), cs.drop w)
  else
    none

def lit (c : Char) : List Char → Option (List Char)
  | [] => none
  | d :: cs => if d = c then some cs else none

theorem fixed_length (w n : Nat) : (fixed w n).length = w := by
  induction w generalizing n with
  | zero => rfl
  | succ w ih => simp [fixed, ih]

theorem fixed_isDigit (w n : Nat) : ∀ c ∈ fixed w n, c.isDigit = true := by
  induction w generalizing n with
  | zero => exact fun c hc => (List.not_mem_nil hc).elim
  | succ w ih =>
    intro c hc
    rcases List.mem_append.mp hc with hc | hc
    · exact ih _ c hc
    · rw [List.mem_singleton.mp hc]
      simp [Nat.isDigit_digitChar]
      omega

theorem natOfDigits_snoc (ds : List Char) (c : Char) :
    Dec.natOfDigits (ds ++ [c]) = 10 * Dec.natOfDigits ds + (c.toNat - 48) := by
  simp [Dec.natOfDigits, List.foldl_append]

theorem natOfDigits_fixed (w n : Nat) : Dec.natOfDigits (fixed w n) = n % 10 ^ w := by
  induction w generalizing n with
  | zero => simp [fixed, Dec.natOfDigits, Nat.mod_one]
  | succ w ih =>
    rw [fixed, natOfDigits_snoc, ih, Nat.toNat_digitChar_of_lt_ten (by omega),
      Nat.pow_succ', Nat.mod_mul]
    omega

theorem field_fixed {w n : Nat} (h : n < 10 ^ w) (rest : List Char) :
    field w (fixed w n ++ rest) = some (n, rest) := by
  have htake : (fixed w n ++ rest).take w = fixed w n := by
    rw [List.take_append_of_le_length (by simp [fixed_length]),
      List.take_of_length_le (by simp [fixed_length])]
  have hdrop : (fixed w n ++ rest).drop w = rest := by
    rw [List.drop_append_of_le_length (by simp [fixed_length]),
      List.drop_of_length_le (by simp [fixed_length]), List.nil_append]
  unfold field
  rw [htake, hdrop, if_pos ⟨fixed_length w n, List.all_eq_true.mpr (fixed_isDigit w n)⟩,
    natOfDigits_fixed, Nat.mod_eq_of_lt h]

/-! ## The calendar -/

def isLeap (year : Nat) : Bool := year % 4 = 0 ∧ (year % 100 ≠ 0 ∨ year % 400 = 0)

def daysInMonth (year month : Nat) : Nat :=
  if month = 2 then (if isLeap year then 29 else 28)
  else if month = 4 ∨ month = 6 ∨ month = 9 ∨ month = 11 then 30
  else 31

def daysBeforeMonth (year month : Nat) : Nat :=
  ((List.range (month - 1)).map fun m => daysInMonth year (m + 1)).sum

def daysBeforeYear (year : Nat) : Nat :=
  (year - 1) * 365 + (year - 1) / 4 - (year - 1) / 100 + (year - 1) / 400

/-- `date.toordinal`: January 1 of the year 1 is day 1. -/
def toordinal (year month day : Nat) : Nat := daysBeforeYear year + daysBeforeMonth year month + day

/-- The fields a `datetime` can have. -/
structure IsDateTime (year month day hour minute second microsecond : Nat) : Prop where
  years : 1 ≤ year ∧ year ≤ 9999
  months : 1 ≤ month ∧ month ≤ 12
  days : 1 ≤ day ∧ day ≤ daysInMonth year month
  hours : hour < 24
  minutes : minute < 60
  seconds : second < 60
  microseconds : microsecond < 1000000

instance (year month day hour minute second microsecond : Nat) :
    Decidable (IsDateTime year month day hour minute second microsecond) :=
  decidable_of_iff ((1 ≤ year ∧ year ≤ 9999) ∧ (1 ≤ month ∧ month ≤ 12) ∧
      (1 ≤ day ∧ day ≤ daysInMonth year month) ∧
      hour < 24 ∧ minute < 60 ∧ second < 60 ∧ microsecond < 1000000)
    ⟨fun ⟨y, mo, d, h, mi, s, us⟩ => ⟨y, mo, d, h, mi, s, us⟩,
      fun ⟨y, mo, d, h, mi, s, us⟩ => ⟨y, mo, d, h, mi, s, us⟩⟩

/-- Microseconds from 1970 to a naive `datetime`. -/
def sinceEpoch (year month day hour minute second microsecond : Nat) : Int :=
  ((toordinal year month day : Int) - toordinal 1970 1 1) * 86400000000 +
    (hour * 3600 + minute * 60 + second) * 1000000 + microsecond

/-! ## Reading a timestamp -/

/-- What `PATTERN` takes apart. -/
structure Fields where
  year : Nat
  month : Nat
  day : Nat
  hour : Nat
  minute : Nat
  second : Nat
  fraction : List Char
  /-- `none` for `Z`, else whether the sign is `-`, and hours and minutes. -/
  zone : Option (Bool × Nat × Nat)
  deriving DecidableEq, Repr

/-- `(?:\.(\d{1,6}))?`. -/
def readFraction : List Char → Option (List Char × List Char)
  | '.' :: cs =>
    let digits := cs.takeWhile Char.isDigit
    if 1 ≤ digits.length ∧ digits.length ≤ 6 then some (digits, cs.dropWhile Char.isDigit) else none
  | cs => some ([], cs)

/-- `(Z|[+-]\d{2}:\d{2})$`. -/
def readZone : List Char → Option (Option (Bool × Nat × Nat))
  | [] => none
  | sign :: cs =>
    if sign = 'Z' then (if cs = [] then some none else none)
    else if sign = '+' ∨ sign = '-' then do
      let (hours, cs) ← field 2 cs
      let cs ← lit ':' cs
      let (minutes, cs) ← field 2 cs
      if cs = [] then some (some (sign = '-', hours, minutes)) else none
    else none

/-- `PATTERN.fullmatch`. -/
def fullmatch (cs : List Char) : Option Fields := do
  let (year, cs) ← field 4 cs
  let cs ← lit '-' cs
  let (month, cs) ← field 2 cs
  let cs ← lit '-' cs
  let (day, cs) ← field 2 cs
  let cs ← lit 'T' cs
  let (hour, cs) ← field 2 cs
  let cs ← lit ':' cs
  let (minute, cs) ← field 2 cs
  let cs ← lit ':' cs
  let (second, cs) ← field 2 cs
  let (fraction, cs) ← readFraction cs
  let zone ← readZone cs
  some ⟨year, month, day, hour, minute, second, fraction, zone⟩

/-- `int((m[7] or '').ljust(6, '0'))`. -/
def micros (fraction : List Char) : Nat :=
  Dec.natOfDigits (fraction ++ List.replicate (6 - fraction.length) '0')

def strictError : String :=
  "clock: strict explicit zone timestamp with at most microsecond precision required"

def zoneError : String := "clock: invalid/unknown zone"

def reversedError : String := "clock: reversed window"

/-- For the texts of the constructor of `datetime`. -/
def datetimeError : String := "datetime field out of range"

def epochMicros (value : String) : Except String Int :=
  match fullmatch value.toList with
  | none => .error strictError
  | some f =>
    let zone := f.zone.getD (false, 0, 0)
    if 15 < zone.2.1 ∨ 59 < zone.2.2 ∨ f.zone = some (true, 0, 0) then .error zoneError
    else if IsDateTime f.year f.month f.day f.hour f.minute f.second (micros f.fraction) then
      let offset : Int := (zone.2.1 * 60 + zone.2.2) * (if zone.1 then -1 else 1)
      .ok (sinceEpoch f.year f.month f.day f.hour f.minute f.second
        (micros f.fraction) - offset * 60000000)
    else .error datetimeError

structure Window where
  startUtc : String
  endUtc : String
  deriving DecidableEq, Repr

def inWindow (value : String) (window : Window) : Except String Bool := do
  let start ← epochMicros window.startUtc
  let stop ← epochMicros window.endUtc
  if stop < start then .error reversedError
  else
    let instant ← epochMicros value
    .ok (start ≤ instant ∧ instant ≤ stop)

example : epochMicros "1970-01-01T00:00:00Z" = .ok 0 ∧
    epochMicros "2024-02-29T23:59:59.5-01:30" = .ok 1709256599500000 ∧
    epochMicros "2023-02-29T00:00:00Z" = .error datetimeError ∧
    epochMicros "1970-01-01T00:00:00-00:00" = .error zoneError ∧
    epochMicros "1970-01-01T00:00:00.1234567Z" = .error strictError := by decide +kernel

/-! ## Writing one -/

/-- An aware `datetime`, its offset in microseconds. -/
structure Aware where
  year : Nat
  month : Nat
  day : Nat
  hour : Nat
  minute : Nat
  second : Nat
  microsecond : Nat
  utcoffset : Int
  valid : IsDateTime year month day hour minute second microsecond
  offsetValid : utcoffset.natAbs < 86400000000

def Aware.instant (d : Aware) : Int :=
  sinceEpoch d.year d.month d.day d.hour d.minute d.second d.microsecond - d.utcoffset

/-- Empty, or `.ffffff`. -/
def fractionText (microsecond : Nat) : List Char :=
  if microsecond = 0 then [] else '.' :: fixed 6 microsecond

/-- What an offset has beyond hours and minutes. -/
def offsetTail (size : Nat) : List Char :=
  if size % 60000000 = 0 then []
  else ':' :: fixed 2 (size / 1000000 % 60) ++ fractionText (size % 1000000)

def offsetText (utcoffset : Int) : List Char :=
  let size := utcoffset.natAbs
  (if utcoffset < 0 then '-' else '+') ::
    (fixed 2 (size / 3600000000) ++ ':' :: (fixed 2 (size / 60000000 % 60) ++ offsetTail size))

/-- The text before the fraction. -/
def Aware.head (d : Aware) : List Char :=
  fixed 4 d.year ++ '-' :: (fixed 2 d.month ++ '-' ::
    (fixed 2 d.day ++ 'T' :: (fixed 2 d.hour ++ ':' :: (fixed 2 d.minute ++
    ':' :: fixed 2 d.second))))

def Aware.isoformat (d : Aware) : List Char :=
  d.head ++ fractionText d.microsecond ++ offsetText d.utcoffset

/-- `.replace('+00:00', 'Z')`. -/
def replaceUtc : List Char → List Char
  | '+' :: '0' :: '0' :: ':' :: '0' :: '0' :: cs => 'Z' :: replaceUtc cs
  | c :: cs => c :: replaceUtc cs
  | [] => []

/-- `clock`. -/
def clock (d : Aware) : Except String String := do
  let result := String.ofList (replaceUtc d.isoformat)
  let _ ← epochMicros result
  .ok result

/-! ## The round trip -/

theorem replaceUtc_plain {cs : List Char} (h : '+' ∉ cs) (rest : List Char) :
    replaceUtc (cs ++ rest) = cs ++ replaceUtc rest := by
  induction cs with
  | nil => rfl
  | cons c cs ih =>
    rw [List.mem_cons, not_or] at h
    rw [List.cons_append, replaceUtc, ih h.2]
    · rfl
    · rintro rest' he -
      exact h.1 he.symm

theorem not_mem_fixed {c : Char} (h : c.isDigit = false) (w n : Nat) : c ∉ fixed w n := by
  intro hc
  rw [fixed_isDigit w n c hc] at h
  cases h

theorem plus_not_mem_fraction (us : Nat) : '+' ∉ fractionText us := by
  unfold fractionText
  split
  · exact List.not_mem_nil
  · simp [not_mem_fixed]

theorem plus_not_mem_tail (size : Nat) : '+' ∉ offsetTail size := by
  unfold offsetTail
  split
  · exact List.not_mem_nil
  · simp [not_mem_fixed, plus_not_mem_fraction]

theorem plus_not_mem_head (d : Aware) : '+' ∉ d.head := by
  simp [Aware.head, not_mem_fixed]

theorem digitChar_zero : ∀ n < 10, Nat.digitChar n = '0' → n = 0 := by decide

/-- An offset below a minute loses its `+00:00`. -/
theorem replaceUtc_offset {utcoffset : Int} (h : utcoffset.natAbs < 86400000000) :
    replaceUtc (offsetText utcoffset) =
      if 0 ≤ utcoffset ∧ utcoffset < 60000000 then 'Z' :: offsetTail utcoffset.natAbs
      else offsetText utcoffset := by
  have htail : replaceUtc (offsetTail utcoffset.natAbs) = offsetTail utcoffset.natAbs := by
    have := replaceUtc_plain (plus_not_mem_tail utcoffset.natAbs) []
    rwa [List.append_nil, replaceUtc, List.append_nil] at this
  unfold offsetText
  dsimp only
  generalize htailText : offsetTail utcoffset.natAbs = tail at htail
  by_cases hbelow : 0 ≤ utcoffset ∧ utcoffset < 60000000
  · rw [if_pos hbelow]
    -- the six characters of `+00:00`
    have hhours : utcoffset.natAbs / 3600000000 = 0 := by omega
    have hminutes : utcoffset.natAbs / 60000000 % 60 = 0 := by omega
    rw [hhours, hminutes, if_neg (by omega)]
    show replaceUtc ('+' :: '0' :: '0' :: ':' :: '0' :: '0' :: tail) = 'Z' :: tail
    rw [replaceUtc, htail]
  · rw [if_neg hbelow]
    have hplain : '+' ∉ fixed 2 (utcoffset.natAbs / 3600000000) ++ ':' ::
        (fixed 2 (utcoffset.natAbs / 60000000 % 60) ++ tail) := by
      simp [not_mem_fixed, ← htailText, plus_not_mem_tail]
    have hrest := replaceUtc_plain hplain []
    rw [List.append_nil, replaceUtc, List.append_nil] at hrest
    rw [replaceUtc, hrest]
    rintro cs hsign hdigits
    have hnonneg : 0 ≤ utcoffset := by
      by_contra hneg
      rw [if_pos (by omega)] at hsign
      cases hsign
    obtain ⟨h1, h2, -, h3, h4, -⟩ : Nat.digitChar (utcoffset.natAbs / 3600000000 / 10 % 10) = '0' ∧
        Nat.digitChar (utcoffset.natAbs / 3600000000 % 10) = '0' ∧ ':' = ':' ∧
        Nat.digitChar (utcoffset.natAbs / 60000000 % 60 / 10 % 10) = '0' ∧
        Nat.digitChar (utcoffset.natAbs / 60000000 % 60 % 10) = '0' ∧ tail = cs := by
      simpa [fixed] using hdigits
    have h1 := digitChar_zero _ (Nat.mod_lt _ (by omega)) h1
    have h2 := digitChar_zero _ (Nat.mod_lt _ (by omega)) h2
    have h3 := digitChar_zero _ (Nat.mod_lt _ (by omega)) h3
    have h4 := digitChar_zero _ (Nat.mod_lt _ (by omega)) h4
    omega

theorem readZone_offset {sign : Char} (hsign : sign = '+' ∨ sign = '-') {h m : Nat}
    (hh : h < 10 ^ 2) (hm : m < 10 ^ 2) (tail : List Char) :
    readZone (sign :: (fixed 2 h ++ ':' :: (fixed 2 m ++ tail))) =
      if tail = [] then some (some (decide (sign = '-'), h, m)) else none := by
  have hZ : sign ≠ 'Z' := by rcases hsign with rfl | rfl <;> decide
  simp [readZone, hZ, hsign, field_fixed hh, field_fixed hm, lit]

theorem readFraction_text {us : Nat} {c : Char} (hc : c.isDigit = false)
    (hpoint : c ≠ '.') (rest : List Char) :
    readFraction (fractionText us ++ c :: rest) =
      some (if us = 0 then [] else fixed 6 us, c :: rest) := by
  unfold fractionText
  split
  · rw [List.nil_append, readFraction]
    intro _ he
    exact hpoint (List.cons.inj he).1
  · have htake : (fixed 6 us ++ c :: rest).takeWhile Char.isDigit = fixed 6 us := by
      rw [List.takeWhile_append_of_pos (fixed_isDigit 6 us),
        List.takeWhile_cons_of_neg (by simp [hc]), List.append_nil]
    have hdrop : (fixed 6 us ++ c :: rest).dropWhile Char.isDigit = c :: rest := by
      rw [List.dropWhile_append_of_pos (fixed_isDigit 6 us),
        List.dropWhile_cons_of_neg (by simp [hc])]
    rw [List.cons_append, readFraction, htake, hdrop, fixed_length, if_pos (by omega)]

theorem micros_text {us : Nat} (h : us < 1000000) :
    micros (if us = 0 then [] else fixed 6 us) = us := by
  unfold micros
  split
  · next h0 =>
    rw [h0]
    rfl
  · rw [fixed_length, Nat.sub_self, List.replicate_zero, List.append_nil, natOfDigits_fixed]
    exact Nat.mod_eq_of_lt h

theorem daysInMonth_le (year month : Nat) : daysInMonth year month ≤ 31 := by
  unfold daysInMonth
  split
  · split <;> omega
  · split <;> omega

/-- The fields of a text are those it was written from, its zone aside. -/
theorem fullmatch_text (d : Aware) {c : Char} (hc : c.isDigit = false)
    (hpoint : c ≠ '.') (rest : List Char) :
    fullmatch (d.head ++ fractionText d.microsecond ++ c :: rest) =
      (readZone (c :: rest)).map fun zone =>
      ⟨d.year, d.month, d.day, d.hour, d.minute, d.second, if d.microsecond = 0 then []
        else fixed 6 d.microsecond, zone⟩ := by
  have hv := d.valid
  have hdays := daysInMonth_le d.year d.month
  have hyear : d.year < 10 ^ 4 := by have := hv.years; omega
  have hmonth : d.month < 10 ^ 2 := by have := hv.months; omega
  have hday : d.day < 10 ^ 2 := by have := hv.days; omega
  have hhour : d.hour < 10 ^ 2 := by have := hv.hours; omega
  have hminute : d.minute < 10 ^ 2 := by have := hv.minutes; omega
  have hsecond : d.second < 10 ^ 2 := by have := hv.seconds; omega
  unfold fullmatch Aware.head
  simp only [List.append_assoc, List.cons_append, field_fixed hyear, field_fixed hmonth,
    field_fixed hday, field_fixed hhour,
    field_fixed hminute, field_fixed hsecond, lit, if_true, Option.bind_eq_bind,
    Option.bind_some, readFraction_text hc hpoint]
  cases readZone (c :: rest) <;> rfl

/-- What a text of a `datetime` is read as, whatever its zone says. -/
theorem epochMicros_text (d : Aware) {c : Char} (hc : c.isDigit = false)
    (hpoint : c ≠ '.') (rest : List Char) :
    epochMicros (String.ofList (d.head ++ fractionText d.microsecond ++ c :: rest)) =
      match readZone (c :: rest) with
      | none => .error strictError
      | some zone =>
        if 15 < (zone.getD (false, 0, 0)).2.1 ∨ 59 < (zone.getD (false, 0, 0)).2.2 ∨
          zone = some (true, 0, 0) then .error zoneError
        else .ok (sinceEpoch d.year d.month d.day d.hour d.minute d.second d.microsecond -
          (((zone.getD (false, 0, 0)).2.1 * 60 + (zone.getD (false, 0, 0)).2.2 : Nat) : Int) *
            (if (zone.getD (false, 0, 0)).1 then -1 else 1) * 60000000) := by
  unfold epochMicros
  rw [String.toList_ofList, fullmatch_text d hc hpoint]
  cases readZone (c :: rest) with
  | none => rfl
  | some zone =>
    simp only [Option.map_some, micros_text d.valid.microseconds, if_pos d.valid]
    push_cast
    rfl

/-- The text `clock` checks. -/
theorem replaceUtc_isoformat (d : Aware) :
    replaceUtc d.isoformat = d.head ++ fractionText d.microsecond ++
      replaceUtc (offsetText d.utcoffset) := by
  unfold Aware.isoformat
  refine replaceUtc_plain ?_ _
  simp [plus_not_mem_head, plus_not_mem_fraction]

theorem offsetTail_eq_nil {size : Nat} : offsetTail size = [] ↔ size % 60000000 = 0 := by
  unfold offsetTail
  split
  · next h => simp [h]
  · next h => simp [h]

/-- The instant of the text `clock` checks: it refuses offsets of 16 hours or
more, and of seconds. -/
theorem epochMicros_isoformat (d : Aware) :
    epochMicros (String.ofList (replaceUtc d.isoformat)) =
      if d.utcoffset.natAbs % 60000000 ≠ 0 then .error strictError
      else if 57600000000 ≤ d.utcoffset.natAbs then .error zoneError
      else .ok d.instant := by
  have hoffset := d.offsetValid
  rw [replaceUtc_isoformat, replaceUtc_offset hoffset]
  split
  · next hbelow =>
    rw [epochMicros_text d (by decide) (by decide)]
    by_cases htail : d.utcoffset.natAbs % 60000000 = 0
    · have hzero : d.utcoffset = 0 := by omega
      simp [readZone, offsetTail_eq_nil, Aware.instant, hzero]
    · simp [readZone, offsetTail_eq_nil, htail]
  · next hbelow =>
    unfold offsetText
    have hsign : (if d.utcoffset < 0 then '-' else '+') = '+' ∨
        (if d.utcoffset < 0 then '-' else '+') = '-' := by
      split
      · exact Or.inr rfl
      · exact Or.inl rfl
    rw [epochMicros_text d (by split <;> rfl) (by split <;> decide),
      readZone_offset hsign (by omega) (by omega)]
    by_cases htail : d.utcoffset.natAbs % 60000000 = 0
    · rw [if_pos (offsetTail_eq_nil.mpr htail), if_neg (not_not_intro htail)]
      simp only [Option.getD_some]
      by_cases hlarge : 57600000000 ≤ d.utcoffset.natAbs
      · rw [if_pos hlarge, if_pos (Or.inl (by omega))]
      · rw [if_neg hlarge, if_neg]
        · unfold Aware.instant
          congr 2
          by_cases hneg : d.utcoffset < 0
          · simp only [hneg, if_true, decide_true]
            omega
          · simp only [hneg, if_false, decide_false, Bool.false_eq_true,
              show ('+' = '-') = False from by decide]
            omega
        · rintro (hhours | hminutes | hzero)
          · omega
          · omega
          · simp only [Option.some.injEq, Prod.mk.injEq, decide_eq_true_eq] at hzero
            omega
    · simp [htail, offsetTail_eq_nil]

/-- A `datetime` that `clock` takes: every zone in use is one of whole minutes, and
none is 16 hours off. -/
structure Stamp extends Aware where
  minutes : utcoffset.natAbs % 60000000 = 0
  hours : utcoffset.natAbs < 57600000000

theorem Stamp.clock_eq (d : Stamp) :
    clock d.toAware = .ok (String.ofList (replaceUtc d.isoformat)) ∧
    epochMicros (String.ofList (replaceUtc d.isoformat)) = .ok d.instant := by
  have hread : epochMicros (String.ofList (replaceUtc d.isoformat)) = .ok d.instant := by
    have := d.hours
    rw [epochMicros_isoformat, if_neg (not_not_intro d.minutes), if_neg (by omega)]
  refine ⟨?_, hread⟩
  unfold clock
  dsimp only
  rw [hread]
  rfl

/-- `clock` of it. -/
@[irreducible] def Stamp.utc (d : Stamp) : String := (clock d.toAware).toOption.getD ""

theorem Stamp.epochMicros_utc (d : Stamp) : epochMicros d.utc = .ok d.instant := by
  unfold Stamp.utc
  rw [d.clock_eq.1]
  exact d.clock_eq.2

/-- `clock` gives a text to a `datetime` whose offset is whole minutes below 16 hours, and the
instant is read back from it. -/
theorem epochMicros_clock (d : Aware) :
    (∀ text, clock d = .ok text → epochMicros text = .ok d.instant) ∧
      ((∃ text, clock d = .ok text) ↔ d.utcoffset.natAbs % 60000000 = 0 ∧
        d.utcoffset.natAbs < 57600000000) := by
  have hread := epochMicros_isoformat d
  have hclock : clock d = (epochMicros (String.ofList (replaceUtc d.isoformat))).map
      fun _ => String.ofList (replaceUtc d.isoformat) := by
    unfold clock
    dsimp only
    cases epochMicros (String.ofList (replaceUtc d.isoformat)) <;> rfl
  rw [hclock]
  split at hread
  · next hseconds =>
    rw [hread]
    exact ⟨nofun, nofun, fun h => absurd h.1 hseconds⟩
  · next hseconds =>
    split at hread
    · next hlarge =>
      rw [hread]
      exact ⟨nofun, nofun, fun h => absurd h.2 (by omega)⟩
    · next hlarge =>
      rw [hread]
      refine ⟨fun text h => ?_, fun _ => ⟨by omega, by omega⟩, fun _ => ⟨_, rfl⟩⟩
      rw [← Except.ok.inj h, hread]

end Py.Clock
