import Mathlib.Algebra.Order.Field.Rat
import Mathlib.Algebra.Order.Field.Power

/-!
# Python's `Decimal`

`Dec` is a decimal as Python holds it: sign, coefficient and exponent, or one
of the special values.  `Dec.parse` is the constructor on text, `normalize` the
method under the default context (28 digits, half-even, exponents to ±999999),
`formatF` is `format(d, "f")`.  `Dec.value` is the number a finite decimal stands
for; money arithmetic that is taken as exact works on these numbers.
-/

namespace Py

/-- The exceptions the source tells apart. -/
inductive Exc
  | valueError | typeError | keyError | indexError | attributeError
  | arithmeticError            -- `decimal.InvalidOperation`, `Overflow`, …
  | apiError (retryAfter : Option ℚ)   -- `PolymarketAPIError`
  | other
  deriving DecidableEq, Repr

theorem bind_ok {ε α β : Type} {x : Except ε α} {f : α → Except ε β}
    {r : β} (h : x.bind f = .ok r) :
    ∃ a, x = .ok a ∧ f a = .ok r := by
  cases x with
  | error e => cases h
  | ok a => exact ⟨a, rfl, h⟩

theorem map_ok {ε α β : Type} {x : Except ε α} {f : α → β} {r : β} (h : x.map f = .ok r) :
    ∃ a, x = .ok a ∧ f a = r := by
  cases x with
  | error e => cases h
  | ok a => exact ⟨a, rfl, Except.ok.inj h⟩

inductive Dec
  | nan (signaling neg : Bool) (payload : Nat)
  | inf (neg : Bool)
  | fin (neg : Bool) (coef : Nat) (exp : Int)
  deriving DecidableEq, Repr

namespace Dec

/-- `coef × 10 ^ exp`. -/
def scale (coef : Nat) : Int → ℚ
  | .ofNat n => (coef : ℚ) * (10 ^ n : Nat)
  | .negSucc n => (coef : ℚ) / (10 ^ (n + 1) : Nat)

def value : Dec → Option ℚ
  | .fin neg coef exp => some (if neg then -scale coef exp else scale coef exp)
  | _ => none

/-- `a == b`, no signaling NaN on either side. -/
def same : Dec → Dec → Bool
  | .inf a, .inf b => a = b
  | a, b => match a.value, b.value with
    | some x, some y => x = y
    | _, _ => false

/-! ## Text to decimal -/

/-- `str.isspace` of one character. -/
def isSpace (c : Char) : Bool :=
  let n := c.toNat
  (9 ≤ n && n ≤ 13) || (28 ≤ n && n ≤ 32) || n = 0x85 || n = 0xa0 || n = 0x1680 ||
    (0x2000 ≤ n && n ≤ 0x200a) || n = 0x2028 || n = 0x2029 || n = 0x202f || n = 0x205f || n = 0x3000

def strip (isSpace : Char → Bool) (cs : List Char) : List Char :=
  ((cs.dropWhile isSpace).reverse.dropWhile isSpace).reverse

/-- The zeros of Unicode 15.0 outside ASCII; the nine characters after each are its other digits. -/
def zeros : List Nat :=
  [0x660, 0x6f0, 0x7c0, 0x966, 0x9e6, 0xa66, 0xae6, 0xb66, 0xbe6, 0xc66, 0xce6,
   0xd66, 0xde6, 0xe50, 0xed0, 0xf20, 0x1040, 0x1090, 0x17e0, 0x1810, 0x1946,
   0x19d0, 0x1a80, 0x1a90, 0x1b50, 0x1bb0, 0x1c40, 0x1c50, 0xa620, 0xa8d0, 0xa900,
   0xa9d0, 0xa9f0, 0xaa50, 0xabf0, 0xff10, 0x104a0, 0x10d30, 0x11066, 0x110f0,
   0x11136, 0x111d0, 0x112f0, 0x11450, 0x114d0, 0x11650, 0x116c0, 0x11730, 0x118e0,
   0x11950, 0x11c50, 0x11d50, 0x11da0, 0x11f50, 0x16a60, 0x16ac0, 0x16b50, 0x1d7ce,
   0x1d7d8, 0x1d7e2, 0x1d7ec, 0x1d7f6, 0x1e140, 0x1e2f0, 0x1e4d0, 0x1e950, 0x1fbf0]

/-- A digit of any script as an ASCII digit; other characters as they are. -/
def toAscii (c : Char) : Char :=
  if c.toNat < 128 then c
  else match zeros.find? fun z => z ≤ c.toNat && c.toNat < z + 10 with
    | some z => Nat.digitChar (c.toNat - z)
    | none => c

def natOfDigits (ds : List Char) : Nat := ds.foldl (fun n c => 10 * n + (c.toNat - 48)) 0

def sign : List Char → Bool × List Char
  | '-' :: cs => (true, cs)
  | '+' :: cs => (false, cs)
  | cs => (false, cs)

/-- `(E[-+]?\d+)?` at the end of a number. -/
def parseExp : List Char → Option Int
  | [] => some 0
  | e :: cs =>
    if e.toLower = 'e' then
      let (neg, ds) := sign cs
      if ds ≠ [] ∧ ds.all Char.isDigit then
        some (if neg then -(natOfDigits ds : Int) else natOfDigits ds)
      else none
    else none

def digits (n : Nat) : Nat := (Nat.toDigits 10 n).length

/-! What a `Decimal` can hold on a 64-bit machine: `MAX_PREC`, `MAX_EMAX` and `MIN_ETINY`. -/

def maxPrec : Nat := 999999999999999999
def maxEmax : Int := 999999999999999999
def minEtiny : Int := -1999999999999999997

def parseNumber (neg : Bool) (cs : List Char) : Option Dec :=
  let (ip, rest) := cs.span Char.isDigit
  let (fp, rest) := match rest with
    | '.' :: r => r.span Char.isDigit
    | r => ([], r)
  if ip = [] ∧ fp = [] then none
  else
    let coef := natOfDigits (ip ++ fp)
    match parseExp rest with
    | none => none
    | some e =>
      let exp := e - fp.length
      if fp.length ≤ maxPrec ∧ digits coef ≤ maxPrec ∧ minEtiny ≤ exp ∧
        exp + digits coef - 1 ≤ maxEmax then
        some (.fin neg coef exp)
      else none

/-- The payload of a NaN. -/
def parsePayload (signaling neg : Bool) (ds : List Char) : Option Dec :=
  if ds.all Char.isDigit ∧ digits (natOfDigits ds) ≤ maxPrec then
    some (.nan signaling neg (natOfDigits ds))
  else
    none

/-- `Decimal(text)`; `none` is `InvalidOperation`. -/
def parse (text : String) : Option Dec :=
  let (neg, cs) := sign (((strip isSpace text.toList).filter (· ≠ '_')).map toAscii)
  let low := cs.map Char.toLower
  if low = "inf".toList ∨ low = "infinity".toList then some (.inf neg)
  else if low.take 3 = "nan".toList then parsePayload false neg (low.drop 3)
  else if low.take 4 = "snan".toList then parsePayload true neg (low.drop 4)
  else parseNumber neg cs

/-! ## `normalize` and `format(…, "f")` -/

def prec : Nat := 28
def emax : Int := 999999
def etiny : Int := -1000026      -- Emin - (prec - 1)

/-- `n / 10 ^ k`, ties to even. -/
def divHalfEven (n k : Nat) : Nat :=
  let q := n / 10 ^ k
  let r := 2 * (n % 10 ^ k)
  if r < 10 ^ k then q
  else if 10 ^ k < r then q + 1
  else if q % 2 = 0 then q else q + 1

/-- Round a coefficient to the context's precision; the exponent never falls below `etiny`. -/
def fix (coef : Nat) (exp : Int) : Nat × Int :=
  let least := max ((digits coef : Int) + exp - prec) etiny
  if exp < least then
    let c := divHalfEven coef (least - exp).toNat
    if digits c > prec then (c / 10, least + 1) else (c, least)
  else (coef, exp)

/-- Drop trailing zeros, at most `fuel` of them. -/
def stripZeros : Nat → Nat → Int → Nat × Int
  | 0, c, e => (c, e)
  | fuel + 1, c, e => if c % 10 = 0 ∧ e < emax then stripZeros fuel (c / 10) (e + 1) else (c, e)

def normalize : Dec → Except Exc Dec
  | .nan true _ _ => .error .arithmeticError
  | .nan false neg payload => .ok (.nan false neg (payload % 10 ^ prec))
  | .inf neg => .ok (.inf neg)
  | .fin neg coef exp =>
    if coef = 0 then .ok (.fin neg 0 0)
    else
      let (c, e) := fix coef exp
      if emax < e + digits c - 1 then .error .arithmeticError
      else if c = 0 then .ok (.fin neg 0 0)
      else
        let (c', e') := stripZeros (digits c) c e
        .ok (.fin neg c' e')

def signText (neg : Bool) : String := if neg then "-" else ""

def formatF : Dec → String
  | .nan _ neg payload => signText neg ++ "NaN" ++ (if payload = 0 then "" else toString payload)
  | .inf neg => signText neg ++ "Infinity"
  | .fin neg coef (.ofNat n) =>
    signText neg ++ (if coef = 0 then "0" else toString coef ++ String.ofList (List.replicate n '0'))
  | .fin neg coef (.negSucc n) =>
    let ds := Nat.toDigits 10 coef
    let ds := List.replicate (n + 2 - ds.length) '0' ++ ds
    signText neg ++ String.ofList (ds.take (ds.length - (n + 1))) ++ "." ++
      String.ofList (ds.drop (ds.length - (n + 1)))

example : (parse "1.2300").bind (fun d => (normalize d).toOption.map formatF) = some "1.23" := by
  decide +kernel

example : parse "\u00a0\u0663.5" = some (.fin false 35 (-1)) ∧
    parse "\u00a0sNaN" = some (.nan true false 0) ∧
    parse "12e999999999999999999" = none := by
  decide +kernel

end Dec

/-- The library's power of one decimal by another, taken on exact numbers; `none`
is a trapped signal (`0 ** 0`, an overflow).  All that is relied on is its sign. -/
structure DecPow where
  pow : ℚ → ℚ → Option ℚ
  pow_nonneg : ∀ b e r, 0 ≤ b → pow b e = some r → 0 ≤ r

/-- The power for whole exponents; other exponents are refused. -/
def natPow : DecPow where
  pow b e := if b = 0 ∧ e = 0 then none else if e.den = 1 ∧
    0 ≤ e.num then some (b ^ e.num.toNat) else none
  pow_nonneg := by
    intro b e r hb h
    split at h
    · cases h
    · split at h
      · obtain rfl := Option.some.inj h
        exact pow_nonneg hb _
      · cases h

end Py
