import Polycopy.Py.Json

/-!
# The canonical trade key

`canonical_trade_id` of `identity.py`, on any JSON value.
-/

namespace Polycopy

open Py

def normalizeAddress (tx : Text) (address : String) : String := tx.lower (tx.strip address)

/-- `_num`. -/
def num (value : Json) : Except Exc String :=
  match value.toDec with
  | some d => d.normalize.map Dec.formatF
  | none => .error .arithmeticError

def identityFields : List String :=
  ["transactionHash", "proxyWallet", "asset", "size", "price", "timestamp"]

def canonicalTradeId (tx : Text) (trade : Json) : Except Exc String := do
  let values ← identityFields.mapM trade.get
  if values.any Json.isNull then .error .valueError
  else
    let transactionHash := (← trade.item "transactionHash").text tx
    let proxyWallet := normalizeAddress tx ((← trade.item "proxyWallet").text tx)
    let asset := (← trade.item "asset").text tx
    let size ← num (← trade.item "size")
    let price ← num (← trade.item "price")
    let timestamp := (← trade.item "timestamp").text tx
    return ":".intercalate ["data-api", transactionHash, proxyWallet, asset, size, price, timestamp]

/-- The exceptions that mean the object has no identity. -/
def Unidentified : Exc → Bool
  | .valueError => true
  | .arithmeticError => true
  | _ => false

theorem canonicalTradeId_ne_empty {tx : Text} {trade : Json} {key : String}
    (h : canonicalTradeId tx trade = .ok key) :
    key ≠ "" := by
  obtain ⟨values, -, h⟩ := bind_ok h
  split at h
  · cases h
  · obtain ⟨j1, -, h⟩ := bind_ok h
    obtain ⟨j2, -, h⟩ := bind_ok h
    obtain ⟨j3, -, h⟩ := bind_ok h
    obtain ⟨j4, -, h⟩ := bind_ok h
    obtain ⟨size, -, h⟩ := bind_ok h
    obtain ⟨j5, -, h⟩ := bind_ok h
    obtain ⟨price, -, h⟩ := bind_ok h
    obtain ⟨j6, -, h⟩ := bind_ok h
    rw [← Except.ok.inj h, String.intercalate_cons_cons]
    simp

example : (canonicalTradeId Text.plain
    (.obj [("transactionHash", .str "0x1"), ("proxyWallet", .str "w"), ("asset", .str "7"),
      ("size", .num "5.0"), ("price", .num "0.5"), ("timestamp", .num "3")])).toOption =
    some "data-api:0x1:w:7:5:0.5:3" := by decide +kernel

end Polycopy
