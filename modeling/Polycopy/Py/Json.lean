import Polycopy.Py.Dec

/-!
# JSON values as Python objects

A response reaches the source as the object `resp.json()` builds.  A number is
kept as the text Python prints for it, so that `str` and `Decimal(str(x))` read
off it; an object is its list of entries, each name once.  `Text` holds the
parts of Python's text runtime that stay parameters: what it prints for a list
or a dict, Unicode case mapping, stripping, and ISO dates.
-/

namespace Py

inductive Json
  | null
  | bool (b : Bool)
  | num (text : String)
  | str (s : String)
  | arr (items : List Json)
  | obj (fields : List (String × Json))

structure Text where
  repr : Json → String
  lower : String → String
  upper : String → String
  strip : String → String
  fromIso : String → Option ℚ
  loads : String → Except Exc Json

/-- Text that is lower-case, stripped, no date and no JSON. -/
def Text.plain : Text := ⟨fun _ => "", id, id, id, fun _ => none, fun _ => .error .valueError⟩

namespace Json

def field? (fields : List (String × Json)) (name : String) : Option Json :=
  (fields.find? fun kv => kv.1 = name).map (·.2)

/-- `j.get(name)`, `None` for a missing name. -/
def get (j : Json) (name : String) : Except Exc Json :=
  match j with
  | .obj fields => .ok ((field? fields name).getD .null)
  | _ => .error .attributeError

/-- `j[name]` on an object. -/
def item (j : Json) (name : String) : Except Exc Json :=
  match j with
  | .obj fields => match field? fields name with
    | some v => .ok v
    | none => .error .keyError
  | _ => .error .typeError

def isNull : Json → Bool
  | .null => true
  | _ => false

/-- `Decimal(str(j))`; what Python prints for a list or a dict is never a number. -/
def toDec : Json → Option Dec
  | .num text => Dec.parse text
  | .str s => Dec.parse s
  | _ => none

def truthy : Json → Bool
  | .null => false
  | .bool b => b
  | .num text => match Dec.parse text with
    | some (.fin _ c _) => c ≠ 0
    | _ => true
  | .str s => s ≠ ""
  | .arr l => !l.isEmpty
  | .obj l => !l.isEmpty

/-- `str(j)`. -/
def text (tx : Text) : Json → String
  | .null => "None"
  | .bool true => "True"
  | .bool false => "False"
  | .num t => t
  | .str s => s
  | j => tx.repr j

/-- `j or other` for printing. -/
def orElse (j other : Json) : Json := if j.truthy then j else other

/-- What `for x in j` yields. -/
def iter : Json → Except Exc (List Json)
  | .arr l => .ok l
  | .str s => .ok (s.toList.map fun c => .str (String.ofList [c]))
  | .obj l => .ok (l.map fun kv => .str kv.1)
  | _ => .error .typeError

def len : Json → Except Exc Nat
  | .arr l => .ok l.length
  | .str s => .ok s.length
  | .obj l => .ok l.length
  | _ => .error .typeError

/-- `j[i]`. -/
def index (j : Json) (i : Nat) : Except Exc Json :=
  match j with
  | .arr l => match l[i]? with
    | some v => .ok v
    | none => .error .indexError
  | .str s => match s.toList[i]? with
    | some c => .ok (.str (String.ofList [c]))
    | none => .error .indexError
  | .obj _ => .error .keyError
  | _ => .error .typeError

/-- `isinstance(j, (int, float))`: a `bool` is an `int`. -/
def isNumber : Json → Bool
  | .num _ => true
  | .bool _ => true
  | _ => false

/-- A number or a `bool` as a number. -/
def number? : Json → Option Dec
  | .bool b => some (.fin false (if b then 1 else 0) 0)
  | .num text => Dec.parse text
  | _ => none

/-! `j == k`: numbers by value, objects whatever the order of their entries. -/

mutual

def same : Json → Json → Bool
  | .null, k => k.isNull
  | .str s, .str t => s = t
  | .arr l, .arr m => sameItems l m
  | .obj l, .obj m => l.length = m.length && sameFields l m
  | j, k => match j.number?, k.number? with
    | some a, some b => a.same b
    | _, _ => false

def sameItems : List Json → List Json → Bool
  | [], [] => true
  | j :: l, k :: m => same j k && sameItems l m
  | _, _ => false

def sameFields : List (String × Json) → List (String × Json) → Bool
  | [], _ => true
  | (name, j) :: l, m => (match field? m name with
    | some k => same j k
    | none => false) && sameFields l m

end

/-- Truncation toward zero. -/
def trunc (q : ℚ) : Int := if 0 ≤ q then q.floor else q.ceil

/-- Digits, single underscores between them allowed. -/
def intDigits : List Char → Bool
  | [] => false
  | [c] => c.isDigit
  | c :: '_' :: rest => c.isDigit && intDigits rest
  | c :: rest => c.isDigit && intDigits rest

/-- What `int` strips: unlike `Decimal`, not the four ASCII separators. -/
def isIntSpace (c : Char) : Bool := Dec.isSpace c && !(28 ≤ c.toNat && c.toNat ≤ 31)

/-- `int(text)`, which refuses more than 4300 digits. -/
def intOfText (text : String) : Option Int :=
  let (neg, cs) := Dec.sign ((Dec.strip isIntSpace text.toList).map Dec.toAscii)
  let ds := cs.filter (· ≠ '_')
  if intDigits cs ∧ ds.length ≤ 4300 then
    some (if neg then -(Dec.natOfDigits ds : Int) else Dec.natOfDigits ds)
  else none

/-- `int(j)`. -/
def toInt : Json → Except Exc Int
  | .bool b => .ok (if b then 1 else 0)
  | .num t => match Dec.parse t with
    | some (.inf _) => .error .arithmeticError
    | some d => match d.value with
      | some q => .ok (trunc q)
      | none => .error .valueError
    | none => .error .valueError
  | .str s => match intOfText s with
    | some n => .ok n
    | none => .error .valueError
  | _ => .error .typeError

end Json

end Py
