import Polycopy.Ingestion.Identity
import Polycopy.Py.DecText

/-!
# When two trades share a key

The parts of a key have no colon, so a key shows each of them.  Texts and
timestamps are shown as they are; a size or a price is shown as its canonical
text, which tells apart zeros of two signs and merges numbers that round alike.
So keys are equal exactly for equal trades except in those two kinds of pair.
-/

namespace Polycopy

open Py

/-! ## Trades with an identity -/

/-- A JSON number or a string that `Decimal` accepts. -/
structure Amount where
  json : Json
  dec : Dec
  reads : json.toDec = some dec

/-- The six identity fields, the text ones without a colon. -/
structure TradeIdentity where
  transactionHash : String
  proxyWallet : String
  asset : String
  size : Amount
  price : Amount
  timestamp : Int
  hashPlain : ':' ∉ transactionHash.toList
  walletPlain : ':' ∉ proxyWallet.toList
  assetPlain : ':' ∉ asset.toList

/-- The entries of a trade object hold an identity, among others. -/
structure Carries (fields : List (String × Json)) (t : TradeIdentity) : Prop where
  transactionHash : Json.field? fields "transactionHash" = some (.str t.transactionHash)
  proxyWallet : Json.field? fields "proxyWallet" = some (.str t.proxyWallet)
  asset : Json.field? fields "asset" = some (.str t.asset)
  size : Json.field? fields "size" = some t.size.json
  price : Json.field? fields "price" = some t.price.json
  timestamp : Json.field? fields "timestamp" = some (.num (toString t.timestamp))

/-- Neither lower-casing nor stripping makes a colon. -/
structure Text.KeepsColons (tx : Text) : Prop where
  lower : ∀ s : String, ':' ∉ s.toList → ':' ∉ (tx.lower s).toList
  strip : ∀ s : String, ':' ∉ s.toList → ':' ∉ (tx.strip s).toList

/-- Both have a key, and it is the same. -/
def SameKey (tx : Text) (trade trade' : Json) : Prop :=
  ∃ key, canonicalTradeId tx trade = .ok key ∧ canonicalTradeId tx trade' = .ok key

/-- Equal in everything but size and price. -/
def SameRest (tx : Text) (t t' : TradeIdentity) : Prop :=
  t.transactionHash = t'.transactionHash ∧
    normalizeAddress tx t.proxyWallet = normalizeAddress tx t'.proxyWallet ∧
    t.asset = t'.asset ∧ t.timestamp = t'.timestamp

def SameTrade (tx : Text) (t t' : TradeIdentity) : Prop :=
  SameRest tx t t' ∧ t.size.dec.same t'.size.dec = true ∧ t.price.dec.same t'.price.dec = true

/-- Equal sizes and prices have one text each, and one text for each means equal. -/
def Distinguished (t t' : TradeIdentity) : Prop :=
  ¬ (t.size.dec.same t'.size.dec = true ∧ t.price.dec.same t'.price.dec = true ∧
      (Dec.Split t.size.dec t'.size.dec ∨ Dec.Split t.price.dec t'.price.dec)) ∧
    ¬ (Dec.OneText t.size.dec t'.size.dec ∧ Dec.OneText t.price.dec t'.price.dec ∧
      (Dec.Collapsed t.size.dec t'.size.dec ∨ Dec.Collapsed t.price.dec t'.price.dec))

/-! ## The parts of a key -/

/-- The first colon ends the first part. -/
theorem cut_inj : ∀ {a a' b b' : List Char}, ':' ∉ a → ':' ∉ a' →
    a ++ ':' :: b = a' ++ ':' :: b' → a = a' ∧ b = b'
  | [], [], _, _, _, _, h => ⟨rfl, (List.cons.inj h).2⟩
  | [], c :: _, _, _, _, h', h => absurd ((List.cons.inj h).1 ▸ List.mem_cons_self) h'
  | c :: _, [], _, _, h', _, h => absurd ((List.cons.inj h).1 ▸ List.mem_cons_self) h'
  | c :: a, c' :: a', _, _, ha, ha', h => by
    obtain ⟨rfl, hrest⟩ := List.cons.inj h
    obtain ⟨rfl, hb⟩ := cut_inj (fun hm => ha (List.mem_cons_of_mem _ hm))
      (fun hm => ha' (List.mem_cons_of_mem _ hm)) hrest
    exact ⟨rfl, hb⟩

theorem join_inj : ∀ {l l' : List String}, l.length = l'.length → (∀ s ∈ l, ':' ∉ s.toList) →
    (∀ s ∈ l', ':' ∉ s.toList) → ":".intercalate l = ":".intercalate l' → l = l' := by
  intro l
  induction l with
  | nil =>
    intro l' hlen _ _ _
    exact (List.length_eq_zero_iff.mp hlen.symm).symm
  | cons s l ih =>
    intro l' hlen hl hl' h
    cases l' with
    | nil => cases hlen
    | cons s' l' =>
      have hlen' : l.length = l'.length := Nat.succ.inj hlen
      cases l with
      | nil =>
        obtain rfl : l' = [] := List.length_eq_zero_iff.mp hlen'.symm
        rw [String.intercalate_singleton, String.intercalate_singleton] at h
        rw [h]
      | cons u l =>
        cases l' with
        | nil => cases hlen'
        | cons u' l' =>
          rw [String.intercalate_cons_cons, String.intercalate_cons_cons] at h
          have hlist := congrArg String.toList h
          simp only [String.toList_append, List.append_assoc, show ":".toList = [':'] from
            rfl, List.singleton_append]
            at hlist
          obtain ⟨hs, hrest⟩ := cut_inj (hl s List.mem_cons_self) (hl' s' List.mem_cons_self) hlist
          rw [String.toList_inj.mp hs, ih hlen' (fun x hx => hl x (List.mem_cons_of_mem _ hx))
            (fun x hx => hl' x (List.mem_cons_of_mem _ hx)) (String.toList_inj.mp hrest)]

/-- An integer is printed like a decimal without places. -/
theorem intText (n : Int) : toString n = Dec.formatF (.fin (n < 0) n.natAbs 0) := by
  cases n with
  | ofNat m =>
    have hneg : decide (Int.ofNat m < 0) = false :=
      decide_eq_false (Int.not_lt.mpr (Int.natCast_nonneg m))
    rw [hneg]
    unfold Dec.formatF
    by_cases h : m = 0
    · subst h
      rfl
    · change toString m = _
      simp [Dec.signText, h]
  | negSucc m =>
    have hneg : decide (Int.negSucc m < 0) = true := decide_eq_true (Int.negSucc_lt_zero m)
    rw [hneg]
    unfold Dec.formatF
    change "-" ++ toString (m + 1) = _
    simp [Dec.signText]

theorem intText_inj {n n' : Int} (h : toString n = toString n') : n = n' := by
  rw [intText, intText] at h
  have hshown := Dec.formatF_inj h
  obtain ⟨hneg, hscale⟩ := Dec.Shown.number.inj hshown
  have habs : n.natAbs = n'.natAbs :=
    le_antisymm (Dec.scale_le_scale.mp hscale.le) (Dec.scale_le_scale.mp hscale.ge)
  have hsign : n < 0 ↔ n' < 0 := decide_eq_decide.mp hneg
  omega

theorem intText_plain (n : Int) : ':' ∉ (toString n).toList := by
  rw [intText]
  exact Dec.colon_not_mem _

theorem num_amount (a : Amount) : num a.json = a.dec.normalize.map Dec.formatF := by
  unfold num
  rw [a.reads]

theorem num_plain {a : Amount} {s : String} (h : num a.json = .ok s) : ':' ∉ s.toList := by
  rw [num_amount] at h
  obtain ⟨d, -, rfl⟩ := map_ok h
  exact Dec.colon_not_mem d

theorem amount_agree (a b : Amount) :
    (∃ s, num a.json = .ok s ∧ num b.json = .ok s) ↔ Dec.OneText a.dec b.dec := by
  rw [num_amount, num_amount, Dec.text_agree, Dec.canon_agree]

theorem normalizeAddress_plain {tx : Text} (hx : Text.KeepsColons tx)
    {address : String} (h : ':' ∉ address.toList) :
    ':' ∉ (normalizeAddress tx address).toList := hx.lower _ (hx.strip _ h)

/-- The parts of a key after the prefix. -/
def TradeIdentity.parts (tx : Text) (t : TradeIdentity) (size price : String) : List String :=
  ["data-api", t.transactionHash, normalizeAddress tx t.proxyWallet, t.asset,
    size, price, toString t.timestamp]

theorem canonicalTradeId_carried (tx : Text) {fields : List (String × Json)}
    {t : TradeIdentity} (h : Carries fields t) :
    canonicalTradeId tx (.obj fields) =
      (num t.size.json).bind fun size => (num t.price.json).map fun price =>
      ":".intercalate (t.parts tx size price) := by
  have hamount : ∀ a : Amount, a.json.isNull = false := by
    intro a
    have hr := a.reads
    cases hj : a.json <;> first | rfl | (rw [hj] at hr; cases hr)
  have hstr : ∀ s : String, (Json.str s).isNull = false := fun _ => rfl
  have hnum : ∀ s : String, (Json.num s).isNull = false := fun _ => rfl
  unfold canonicalTradeId TradeIdentity.parts
  simp only [identityFields, List.mapM_cons, List.mapM_nil, Json.get, Json.item,
    h.transactionHash, h.proxyWallet, h.asset,
    h.size, h.price, h.timestamp, Option.getD_some, bind, Except.bind, pure,
    Except.pure, List.any_cons, List.any_nil,
    hamount, hstr, hnum, Bool.or_false, Bool.false_eq_true, if_false, Json.text]
  cases num t.size.json with
  | error e => rfl
  | ok size => cases num t.price.json <;> rfl

theorem sameKey_iff {tx : Text} (hx : Text.KeepsColons tx)
    {fields fields' : List (String × Json)} {t t' : TradeIdentity} (h : Carries fields t)
    (h' : Carries fields' t') :
    SameKey tx (.obj fields) (.obj fields') ↔
      SameRest tx t t' ∧ Dec.OneText t.size.dec t'.size.dec ∧
      Dec.OneText t.price.dec t'.price.dec := by
  have hplain : ∀ (t : TradeIdentity) {size price : String}, num t.size.json = .ok size →
      num t.price.json = .ok price →
      ∀ s ∈ t.parts tx size price, ':' ∉ s.toList := by
    intro t size price hs hp
    unfold TradeIdentity.parts
    simp only [List.forall_mem_cons, List.not_mem_nil, false_implies, implies_true, and_true]
    exact ⟨by decide, t.hashPlain, normalizeAddress_plain hx t.walletPlain,
      t.assetPlain, num_plain hs, num_plain hp, intText_plain t.timestamp⟩
  unfold SameKey
  rw [canonicalTradeId_carried tx h, canonicalTradeId_carried tx h', ← amount_agree, ← amount_agree]
  constructor
  · rintro ⟨key, hk, hk'⟩
    obtain ⟨size, hs, hk⟩ := bind_ok hk
    obtain ⟨price, hp, rfl⟩ := map_ok hk
    obtain ⟨size', hs', hk'⟩ := bind_ok hk'
    obtain ⟨price', hp', hjoin⟩ := map_ok hk'
    have hparts : t'.parts tx size' price' = t.parts tx size price :=
      join_inj rfl (hplain t' hs' hp') (hplain t hs hp) hjoin
    unfold TradeIdentity.parts at hparts
    simp only [List.cons.injEq, and_true, true_and] at hparts
    obtain ⟨hhash, hwallet, hasset, rfl, rfl, htime⟩ := hparts
    exact ⟨⟨hhash.symm, hwallet.symm, hasset.symm, (intText_inj htime).symm⟩,
      ⟨_, hs, hs'⟩, ⟨_, hp, hp'⟩⟩
  · rintro ⟨⟨hhash, hwallet, hasset, htime⟩, ⟨size, hs, hs'⟩, ⟨price, hp, hp'⟩⟩
    refine ⟨":".intercalate (t.parts tx size price), by rw [hs, hp]; rfl, ?_⟩
    rw [hs', hp']
    unfold TradeIdentity.parts
    rw [hhash, hwallet, hasset, htime]
    rfl

def TradeIdentity.fields (t : TradeIdentity) : List (String × Json) :=
  [("transactionHash", .str t.transactionHash),
    ("proxyWallet", .str t.proxyWallet), ("asset", .str t.asset),
    ("size", t.size.json), ("price", t.price.json), ("timestamp", .num (toString t.timestamp))]

theorem TradeIdentity.carries (t : TradeIdentity) : Carries t.fields t :=
  ⟨rfl, rfl, rfl, rfl, rfl, rfl⟩

/-- One fill with a size to fill in. -/
def fillOf (size : Amount) : TradeIdentity :=
  ⟨"0xabc", "0xc6", "46", size, ⟨.num "0.5", .fin false 5 (-1), by decide +kernel⟩,
    1789795243, by decide, by decide, by decide⟩

def zeroFill : TradeIdentity := fillOf ⟨.num "0.0", .fin false 0 (-1), by decide +kernel⟩

def minusZeroFill : TradeIdentity := fillOf ⟨.num "-0.0", .fin true 0 (-1), by decide +kernel⟩

def wholeFill : TradeIdentity := fillOf ⟨.str "1", .fin false 1 0, by decide +kernel⟩

def nearlyWholeFill : TradeIdentity :=
  fillOf ⟨.str "1.00000000000000000000000000001",
    .fin false 100000000000000000000000000001 (-29), by decide +kernel⟩

end Polycopy
