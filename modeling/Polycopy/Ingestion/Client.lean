import Polycopy.Py.Json
import Polycopy.Lib.Keyed

/-!
# What the client makes of Gamma's answers

A response is the Python object `_get` returns, or the exception it raises.  The
client returns a market only after checking its identity: `_same_condition` on
every lookup, and on the token fallback the token among its `clobTokenIds` too.
-/

namespace Polycopy

open Py

/-- A dict of a response. -/
abbrev Dict := List (String × Json)

namespace Dict

/-- `d.get(name)`. -/
def get (d : Dict) (name : String) : Json := (Json.field? d name).getD .null

/-- `name in d`. -/
def has (d : Dict) (name : String) : Bool := (Json.field? d name).isSome

/-- `d[name] = value`. -/
def set (d : Dict) (name : String) (value : Json) : Dict := Keyed.put Prod.fst (name, value) d

theorem field?_eq (d : Dict) (name : String) :
    Json.field? d name = (Keyed.find Prod.fst name d).map (·.2) := rfl

theorem get_set (d : Dict) (name other : String) (value : Json) :
    (d.set name value).get other = if name = other then value else d.get other := by
  unfold get set
  rw [field?_eq, field?_eq, Keyed.find_put]
  by_cases h : name = other
  · rw [if_pos h, if_pos h]
    rfl
  · rw [if_neg h, if_neg h]

end Dict

/-- `value or []`. -/
def orEmpty (value : Json) : Json := value.orElse (.arr [])

/-- `_parse_json_string`. -/
def parseJsonString (tx : Text) (value : Json) : Except Exc Json :=
  match value with
  | .str s => tx.loads s
  | value => .ok value

def parseGammaMarket (tx : Text) (raw : Dict) : Except Exc Dict := do
  let clobTokenIds ← parseJsonString tx (raw.get "clobTokenIds")
  let market := raw.set "clobTokenIds" clobTokenIds
  let outcomes ← parseJsonString tx (market.get "outcomes")
  let market := market.set "outcomes" outcomes
  let outcomePrices ← parseJsonString tx (market.get "outcomePrices")
  return market.set "outcomePrices" outcomePrices

/-- `str(left or "").lower() == right.lower()`. -/
def sameCondition (tx : Text) (left : Json) (right : String) : Bool :=
  tx.lower ((left.orElse (.str "")).text tx) = tx.lower right

/-- The first market of the list with the condition, parsed. -/
def findByCondition (tx : Text) (conditionId : String) : List Json → Except Exc (Option Dict)
  | [] => .ok none
  | .obj raw :: rest =>
    if sameCondition tx (Dict.get raw "conditionId") conditionId then
      (parseGammaMarket tx raw).map some
    else findByCondition tx conditionId rest
  | _ :: rest => findByCondition tx conditionId rest

def getGammaMarket (tx : Text) (conditionId : String) (response : Except Exc Json) :
    Except Exc (Option Dict) := do
  match ← response with
  | .arr markets => findByCondition tx conditionId markets
  | _ => return none

/-- The texts of `value or []`. -/
def textsOf (tx : Text) (value : Json) : Except Exc (List String) := do
  return (← (orEmpty value).iter).map (Json.text tx)

def findByToken (tx : Text) (tokenId expectedConditionId : String) :
    List Json → Except Exc (Option Dict)
  | [] => .ok none
  | .obj raw :: rest =>
    if sameCondition tx (Dict.get raw "conditionId") expectedConditionId then do
      let market ← parseGammaMarket tx raw
      let tokenIds ← textsOf tx (market.get "clobTokenIds")
      if tokenId ∈ tokenIds then return some market
      else findByToken tx tokenId expectedConditionId rest
    else findByToken tx tokenId expectedConditionId rest
  | _ :: rest => findByToken tx tokenId expectedConditionId rest

def getGammaMarketByToken (tx : Text) (tokenId expectedConditionId : String)
    (response : Except Exc Json) :
    Except Exc (Option Dict) := do
  match ← response with
  | .arr markets => findByToken tx tokenId expectedConditionId markets
  | _ => return none

/-- `{str(o): str(t) for o, t in zip(outcomes, token_ids)}`. -/
def clobTokenMap (tx : Text) (gamma : Dict) : Except Exc (List (String × String)) := do
  let outcomes ← textsOf tx (gamma.get "outcomes")
  let tokenIds ← textsOf tx (gamma.get "clobTokenIds")
  return (outcomes.zip tokenIds).foldl (fun d kv => Keyed.put Prod.fst kv d) []

/-! ## What they return -/

/-- An object of the response that passed the identity check, and what it parses to. -/
structure Returned (tx : Text) (response : Except Exc Json) (conditionId : String)
    (raw gamma : Dict) : Prop where
  listed : ∃ markets, response = .ok (.arr markets) ∧ .obj raw ∈ markets
  condition : sameCondition tx (Dict.get raw "conditionId") conditionId = true
  parsed : parseGammaMarket tx raw = .ok gamma

/-- Parsing leaves every other entry as it came. -/
theorem parseGammaMarket_get {tx : Text} {raw gamma : Dict} {name : String}
    (h : parseGammaMarket tx raw = .ok gamma) (h1 : name ≠ "clobTokenIds")
    (h2 : name ≠ "outcomes") (h3 : name ≠ "outcomePrices") :
    gamma.get name = raw.get name := by
  obtain ⟨tokens, -, h⟩ := bind_ok h
  obtain ⟨outcomes, -, h⟩ := bind_ok h
  obtain ⟨prices, -, h⟩ := bind_ok h
  obtain rfl := Except.ok.inj h
  rw [Dict.get_set, if_neg h3.symm, Dict.get_set, if_neg h2.symm, Dict.get_set, if_neg h1.symm]

theorem findByCondition_some {tx : Text} {conditionId : String}
    {gamma : Dict} : ∀ {markets : List Json},
    findByCondition tx conditionId markets = .ok (some gamma) → ∃ raw, .obj raw ∈ markets ∧
      sameCondition tx (Dict.get raw "conditionId") conditionId = true ∧
      parseGammaMarket tx raw = .ok gamma := by
  intro markets
  induction markets with
  | nil => intro h; cases h
  | cons j rest ih =>
    intro h
    have later : findByCondition tx conditionId rest = .ok (some gamma) →
        ∃ raw, .obj raw ∈ j :: rest ∧
        sameCondition tx (Dict.get raw "conditionId") conditionId = true ∧
        parseGammaMarket tx raw = .ok gamma := by
      intro h
      obtain ⟨raw, hmem, hraw⟩ := ih h
      exact ⟨raw, List.mem_cons_of_mem _ hmem, hraw⟩
    cases j with
    | obj raw =>
      unfold findByCondition at h
      split at h
      · next hsame =>
        refine ⟨raw, List.mem_cons_self, hsame, ?_⟩
        cases hp : parseGammaMarket tx raw with
        | error e => rw [hp] at h; cases h
        | ok g =>
          rw [hp] at h
          rw [Option.some.inj (Except.ok.inj h)]
      · exact later h
    | null | bool | num | str | arr => exact later h

theorem getGammaMarket_some {tx : Text} {conditionId : String}
    {response : Except Exc Json} {gamma : Dict}
    (h : getGammaMarket tx conditionId response = .ok (some gamma)) :
    ∃ raw, Returned tx response conditionId raw gamma := by
  cases response with
  | error e => cases h
  | ok j =>
    cases j with
    | arr markets =>
      obtain ⟨raw, hmem, hsame, hparsed⟩ := findByCondition_some h
      exact ⟨raw, ⟨markets, rfl, hmem⟩, hsame, hparsed⟩
    | null | bool | num | str | obj => cases h

theorem findByToken_some {tx : Text} {tokenId conditionId : String}
    {gamma : Dict} : ∀ {markets : List Json},
    findByToken tx tokenId conditionId markets = .ok (some gamma) →
      (∃ raw, .obj raw ∈ markets ∧ sameCondition tx (Dict.get raw "conditionId") conditionId = true ∧
        parseGammaMarket tx raw = .ok gamma) ∧
      ∃ tokenIds, textsOf tx (gamma.get "clobTokenIds") = .ok tokenIds ∧ tokenId ∈ tokenIds := by
  intro markets
  induction markets with
  | nil => intro h; cases h
  | cons j rest ih =>
    intro h
    have later : findByToken tx tokenId conditionId rest = .ok (some gamma) →
        (∃ raw, .obj raw ∈ j :: rest ∧
          sameCondition tx (Dict.get raw "conditionId") conditionId = true ∧
          parseGammaMarket tx raw = .ok gamma) ∧
        ∃ tokenIds, textsOf tx (gamma.get "clobTokenIds") = .ok tokenIds ∧ tokenId ∈ tokenIds := by
      intro h
      obtain ⟨⟨raw, hmem, hraw⟩, htokens⟩ := ih h
      exact ⟨⟨raw, List.mem_cons_of_mem _ hmem, hraw⟩, htokens⟩
    cases j with
    | obj raw =>
      unfold findByToken at h
      split at h
      · next hsame =>
        cases hp : parseGammaMarket tx raw with
        | error e => rw [hp] at h; cases h
        | ok g =>
          rw [hp] at h
          change (textsOf tx (g.get "clobTokenIds")).bind _ = _ at h
          cases ht : textsOf tx (g.get "clobTokenIds") with
          | error e => rw [ht] at h; cases h
          | ok tokenIds =>
            rw [ht] at h
            change (if _ then _ else _) = _ at h
            split at h
            · next hmem =>
              obtain rfl := Option.some.inj (Except.ok.inj h)
              exact ⟨⟨raw, List.mem_cons_self, hsame, hp⟩, tokenIds, ht, hmem⟩
            · exact later h
      · exact later h
    | null | bool | num | str | arr => exact later h

theorem getGammaMarketByToken_some {tx : Text} {tokenId conditionId : String}
    {response : Except Exc Json} {gamma : Dict}
    (h : getGammaMarketByToken tx tokenId conditionId response = .ok (some gamma)) :
    (∃ raw, Returned tx response conditionId raw gamma) ∧
      ∃ tokenIds, textsOf tx (gamma.get "clobTokenIds") = .ok tokenIds ∧ tokenId ∈ tokenIds := by
  cases response with
  | error e => cases h
  | ok j =>
    cases j with
    | arr markets =>
      obtain ⟨⟨raw, hmem, hsame, hparsed⟩, htokens⟩ := findByToken_some h
      exact ⟨⟨raw, ⟨markets, rfl, hmem⟩, hsame, hparsed⟩, htokens⟩
    | null | bool | num | str | obj => cases h

end Polycopy
