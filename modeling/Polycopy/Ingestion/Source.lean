import Polycopy.Lib.Feed
import Polycopy.Lib.Run
import Polycopy.Ingestion.CatchUp

/-!
# An honest source, and runs against it

The Data API as the catch-up relies on it: the trades of a wallet in one order,
new ones at the newest end only, `limit`, `offset`, `start` and `end` honoured
and a page short only where the history ends.  `WorldStep` lets trades arrive,
requests fail, other processes commit and the cycle crash between any two
awaits.
-/

namespace Polycopy

open Py Feed

/-! ## The source -/

/-- A well-formed row: an identity, and a whole timestamp from 1 on. -/
structure SourceTrade (tx : Text) where
  raw : Json
  key : String
  timestamp : Int
  identified : canonicalTradeId tx raw = .ok key
  timed : ∃ row text, raw = .obj row ∧ Json.field? row "timestamp" = some (.num text) ∧
    (Dec.parse text).bind Dec.value = some (timestamp : ℚ)
  positive : 1 ≤ timestamp

/-- The trades of one wallet, oldest first; a canonical key names one trade. -/
abbrev Source (tx : Text) := Log (@SourceTrade.key tx) (@SourceTrade.timestamp tx)

variable {tx : Text}

/-- Newest first; `start` and `end` are inclusive. -/
def Source.getTrades (source : Source tx) (r : TradesRequest) : List Json :=
  let rows := source.entries.filter fun t =>
    r.start.all (· ≤ t.timestamp) && r.endTimestamp.all (t.timestamp ≤ ·)
  ((rows.reverse.drop r.offset).take r.limit).map SourceTrade.raw

/-! ## Runs -/

structure World (tx : Text) where
  source : Source tx
  own : CatchUp

inductive WorldEvent
  | arrive | reply | elsewhere
  | own (e : CatchUpEvent)

/-- Of a response nothing is assumed but that it is an exception or what the source serves. -/
def CatchUpEvent.honest : CatchUpEvent → Prop
  | .fetch (.ok _) => False
  | _ => True

inductive WorldStep (wallet : Wallet) : World tx → WorldEvent → World tx → Prop
  | arrive (w : World tx) (source : Source tx) (grows : w.source.Grows source) :
      WorldStep wallet w .arrive { w with source := source }
  | reply (w : World tx) (r : TradesRequest) (own : CatchUp) (asked : w.own.pc.request = some r)
      (step : w.own.next tx wallet (.fetch (.ok (w.source.getTrades r))) = some own) :
      WorldStep wallet w .reply { w with own := own }
  | elsewhere (w : World tx) (db : Db) (step : CatchUpElsewhere wallet.id w.own.db db) :
      WorldStep wallet w .elsewhere { w with own := { w.own with db := db } }
  | own (w : World tx) (e : CatchUpEvent) (own : CatchUp) (honest : e.honest)
      (step : w.own.next tx wallet e = some own) : WorldStep wallet w (.own e) { w with own := own }

/-- Before the first cycle of a wallet; the tables may hold anything but a checkpoint of it. -/
structure World.Start (wallet : Wallet) (w : World tx) : Prop where
  pc : w.own.pc = .idle none
  log : w.own.db.catchUps wallet.id = []
  handed : w.own.handed = []
  quarantined : w.own.quarantined = []

/-! ## What a page holds -/

namespace SourceTrade

theorem key_ne_empty (t : SourceTrade tx) : t.key ≠ "" := canonicalTradeId_ne_empty t.identified

theorem toInt_timestamp {text : String} {n : Int}
    (h : (Dec.parse text).bind Dec.value = some (n : ℚ)) :
    (Json.num text).toInt = .ok n := by
  cases hp : Dec.parse text with
  | none => rw [hp] at h; cases h
  | some d =>
    rw [hp] at h
    have hv : d.value = some (n : ℚ) := h
    have htrunc : Json.trunc (n : ℚ) = n := by
      unfold Json.trunc
      split
      · exact Rat.floor_intCast n
      · exact Rat.ceil_intCast n
    unfold Json.toInt
    simp only [hp]
    cases d with
    | nan s neg payload => cases hv
    | inf s => cases hv
    | fin neg coef exp => simp only [hv, htrunc]

theorem timestampOf_raw (t : SourceTrade tx) : timestampOf t.raw = .ok t.timestamp := by
  obtain ⟨row, text, hraw, hfield, hvalue⟩ := t.timed
  rw [hraw]
  show (if (Json.field? row "timestamp").isSome then
    ((Json.field? row "timestamp").getD .null).toInt else .ok 0) = _
  rw [hfield]
  exact toInt_timestamp hvalue

theorem get_timestamp (t : SourceTrade tx) :
    ∃ text, t.raw.get "timestamp" = .ok (.num text) ∧ (Json.num text).toInt = .ok t.timestamp := by
  obtain ⟨row, text, hraw, hfield, hvalue⟩ := t.timed
  refine ⟨text, ?_, toInt_timestamp hvalue⟩
  rw [hraw]
  show Except.ok ((Json.field? row "timestamp").getD .null) = _
  rw [hfield]
  rfl

end SourceTrade

theorem keys_raw (rows : List (SourceTrade tx)) :
    keys tx (rows.map SourceTrade.raw) = .ok (rows.map SourceTrade.key) := by
  induction rows with
  | nil => rfl
  | cons t rows ih =>
    unfold keys
    simp only [List.map_cons, t.identified, ih]
    rfl

theorem firstKey_raw (rows : List (SourceTrade tx)) :
    firstKey tx (rows.map SourceTrade.raw) = rows.head?.map SourceTrade.key := by
  unfold firstKey
  cases rows with
  | nil => rfl
  | cons t rows => simp [t.identified, Except.toOption]

theorem mapM_timestampOf (rows : List (SourceTrade tx)) :
    (rows.map SourceTrade.raw).mapM timestampOf = .ok (rows.map SourceTrade.timestamp) := by
  induction rows with
  | nil => rfl
  | cons t rows ih =>
    rw [List.map_cons, List.mapM_cons, ih, t.timestampOf_raw]
    rfl

theorem newestTimestamp_raw (rows : List (SourceTrade tx)) (now : Time) :
    ∃ e, newestTimestamp (rows.map SourceTrade.raw) now = .ok e := by
  unfold newestTimestamp
  rw [mapM_timestampOf]
  exact ⟨_, rfl⟩

theorem le_newestTimestamp {rows : List (SourceTrade tx)} {now : Time} {e : Int}
    (h : newestTimestamp (rows.map SourceTrade.raw) now = .ok e) : ∀ t ∈ rows, t.timestamp ≤ e := by
  intro t ht
  unfold newestTimestamp at h
  rw [mapM_timestampOf] at h
  have hmem : t.timestamp ∈ rows.map SourceTrade.timestamp := List.mem_map_of_mem ht
  obtain rfl := Except.ok.inj h
  cases hmax : (rows.map SourceTrade.timestamp).max? with
  | none =>
    rw [List.max?_eq_none_iff.mp hmax] at hmem
    exact (List.not_mem_nil hmem).elim
  | some top => exact (List.max?_eq_some_iff.mp hmax).2 _ hmem

theorem times_raw (rows : List (SourceTrade tx)) :
    times (rows.map SourceTrade.raw) = .ok (rows.map SourceTrade.timestamp) := by
  have hmap : ∃ stamps, (rows.map SourceTrade.raw).mapM
      (fun row => row.get "timestamp") = .ok stamps ∧
      (stamps.filter Json.isNumber).mapM Json.toInt = .ok (rows.map SourceTrade.timestamp) := by
    induction rows with
    | nil => exact ⟨[], rfl, rfl⟩
    | cons t rows ih =>
      obtain ⟨stamps, hstamps, hint⟩ := ih
      obtain ⟨text, hget, htext⟩ := t.get_timestamp
      refine ⟨.num text :: stamps, ?_, ?_⟩
      · rw [List.map_cons, List.mapM_cons, hstamps, hget]
        rfl
      · rw [List.filter_cons_of_pos rfl, List.mapM_cons, htext, hint]
        rfl
  obtain ⟨stamps, hstamps, hint⟩ := hmap
  unfold times
  rw [hstamps]
  exact hint

/-- The newest page. -/
theorem getTrades_latest (source : Source tx) (limit : Nat) :
    source.getTrades ⟨limit, 0, none, none⟩ =
      (source.page source.entries.length 0 limit).map SourceTrade.raw := by
  unfold Source.getTrades Log.page
  simp

/-- A page below a timestamp. -/
theorem getTrades_page (source : Source tx) (limit offset : Nat) (e : Int) :
    source.getTrades ⟨limit, offset, some 1, some e⟩ =
      (source.page (source.upTo e) offset limit).map SourceTrade.raw := by
  have hfilter : (source.entries.filter fun t => (some 1).all (· ≤ t.timestamp) &&
      (some e).all (t.timestamp ≤ ·)) =
      source.entries.filter fun t => t.timestamp ≤ e := by
    refine List.filter_congr fun t _ => ?_
    have hpos := t.positive
    simp [hpos]
  unfold Source.getTrades Log.page
  rw [hfilter, Log.filter_eq_take]

end Polycopy
