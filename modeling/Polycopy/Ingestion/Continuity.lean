import Polycopy.Ingestion.Recovery

/-!
# No trade is lost between two checkpoints

Against an honest source, what a checkpoint calls caught up has been ingested
from the first anchor on (`catch_up_continuity`), whatever arrives, fails or
crashes in between: each step of a run keeps `Continuous`.
-/

namespace Polycopy

open Py Feed Runs

variable {tx : Text}

/-- The anchor of the first checkpoint that has one. -/
def Db.firstAnchor (db : Db) (walletId : Nat) : Option String :=
  (db.catchUps walletId).findSome? CatchUpRecord.anchorId

/-! ## Steps of a run -/

def World.view (wallet : Wallet) (w : World tx) : View tx :=
  ⟨w.source, w.own.handed, w.own.db.firstAnchor wallet.id⟩

structure Continuous (wallet : Wallet) (w : World tx) : Prop where
  log : ∀ r, (w.own.db.catchUps wallet.id).getLast? = some r → (w.view wallet).RecordOk r
  pc : (w.view wallet).PcOk w.own.pc
  accounted : ∀ raw ∈ w.own.handed, ∀ key, canonicalTradeId tx raw = .ok key →
    Accounted w.own.db w.own.quarantined key

variable {wallet : Wallet} {w : World tx}

/-- What leaves the log of checkpoints alone, and takes no row back. -/
theorem Continuous.grow (h : Continuous wallet w) {w' : World tx}
    (hsource : w.source.Grows w'.source) (hhanded : ∀ raw ∈ w.own.handed, raw ∈ w'.own.handed)
    (hlog : w'.own.db.catchUps wallet.id = w.own.db.catchUps wallet.id)
    (hpc : (w.view wallet).Le (w'.view wallet) → (w'.view wallet).PcOk w'.own.pc)
    (haccounted : ∀ raw ∈ w'.own.handed, ∀ key, canonicalTradeId tx raw = .ok key →
      Accounted w'.own.db w'.own.quarantined key) : Continuous wallet w' := by
  have hle : (w.view wallet).Le (w'.view wallet) := by
    refine ⟨hsource, hhanded, ?_⟩
    show w'.own.db.firstAnchor wallet.id = w.own.db.firstAnchor wallet.id
    unfold Db.firstAnchor
    rw [hlog]
  refine ⟨fun r hr => ?_, hpc hle, haccounted⟩
  rw [hlog] at hr
  exact (h.log r hr).le hle

/-- A step inside the cycle that commits nothing. -/
theorem Continuous.goto (h : Continuous wallet w) {pc : Except Exc CatchUpPc}
    (hpc : ∀ p, pc = .ok p → (w.view wallet).PcOk p) :
    Continuous wallet { w with own := w.own.goto pc } := by
  refine h.grow (Log.Grows.refl _) (fun _ h => h) rfl (fun _ => ?_) h.accounted
  cases pc with
  | error e => trivial
  | ok p => exact hpc p rfl

theorem catchUps_log (db : Db) (actor : String) (r : CatchUpRecord) (walletId : Nat)
    (h : r.walletId = walletId) :
    (db.log actor (.walletCatchUp r)).catchUps walletId = db.catchUps walletId ++ [r] := by
  unfold Db.catchUps Db.log
  rw [List.filterMap_append]
  simp [h]

theorem Continuous.commit (h : Continuous wallet w) {c : Cycle} {reason : String} {after : After}
    (hw : w.own.pc = .checkpoint c reason after) :
    Continuous wallet { w with own := { w.own with
      db := w.own.db.log "bot" (.walletCatchUp (c.record wallet reason)), pc :=
        resume c after } } := by
  have hpc := h.pc
  rw [hw] at hpc
  obtain ⟨hrecord, hafter⟩ := hpc
  have hrecord := hrecord wallet reason
  have hlog := catchUps_log w.own.db "bot" (c.record wallet reason) wallet.id rfl
  have hview : World.view wallet { w with own := { w.own with
      db := w.own.db.log "bot" (.walletCatchUp (c.record wallet reason)), pc := resume c after } } =
      (w.view wallet).after (c.record wallet reason).anchorId := by
    unfold World.view View.after Db.firstAnchor
    rw [hlog, List.findSome?_append]
    simp
  refine ⟨fun r hr => ?_, ?_, h.accounted⟩
  · rw [hlog, List.getLast?_concat] at hr
    obtain rfl := Option.some.inj hr
    rw [hview]
    exact ⟨hrecord.linked.after, hrecord.recovering⟩
  · rw [hview]
    apply View.resume_ok
    cases after with
    | done => trivial
    | turn left => exact View.InRecovery.after hafter wallet reason
    | page left offset e => exact ⟨View.InRecovery.after hafter.1 wallet reason, hafter.2⟩

/-- A call of `ingest_trade_rows`: its rows are handed over, then the cycle goes on. -/
theorem Continuous.store (h : Continuous wallet w) {env : PageEnv} {rows : List Json}
    {after : Ingested → Except Exc CatchUpPc}
    (hafter : ∀ v r pc, (w.view wallet).Le v → (∀ raw ∈ rows, raw ∈ v.handed) →
      after r = .ok pc → v.PcOk pc) :
    Continuous wallet { w with own := w.own.store tx env wallet.id rows after } := by
  unfold CatchUp.store
  split
  · exact h.goto fun p hp => by cases hp
  · next r hr =>
    obtain ⟨hwritten, haccounted⟩ := ingestTradeRows_ok hr
    obtain ⟨markets, trades, hdb⟩ := hwritten.rest
    refine h.grow (Log.Grows.refl _) (fun _ hraw =>
      List.mem_append_left _ hraw) ?_ (fun hle => ?_) ?_
    · show r.db.catchUps wallet.id = _
      rw [hdb]
      rfl
    · cases hpc : after r with
      | error e => trivial
      | ok pc => exact hafter _ r pc hle (fun raw hraw => List.mem_append_right _ hraw) hpc
    · intro raw hraw key hkey
      rcases List.mem_append.mp hraw with hraw | hraw
      · rcases h.accounted raw hraw key hkey with hstored | ⟨q, hq, hqkey⟩
        · exact .inl (hwritten.hasTrade hstored)
        · exact .inr ⟨q, List.mem_append_left _ hq, hqkey⟩
      · rcases haccounted raw hraw key hkey with hstored | ⟨q, hq, hqkey⟩
        · exact .inl hstored
        · exact .inr ⟨q, List.mem_append_right _ hq, hqkey⟩

/-- A move to a place inside the cycle. -/
theorem Continuous.move (h : Continuous wallet w) {pc : CatchUpPc} (hpc : (w.view wallet).PcOk pc) :
    Continuous wallet { w with own := { w.own with pc := pc } } :=
  h.grow (Log.Grows.refl _) (fun _ h => h) rfl (fun _ => hpc) h.accounted

/-- The last checkpoint with an anchor, and the window it may have left open. -/
theorem Continuous.anchored (h : Continuous wallet w) {size budget : Nat} (hsize : 1 ≤ size)
    (hset : isSet ((w.own.db.catchUps wallet.id).getLast?.bind CatchUpRecord.anchorId) = true) :
    (w.view wallet).PcOk (.awaitLatest ⟨size, budget, (w.own.db.catchUps wallet.id).getLast?,
      (w.own.db.catchUps wallet.id).getLast?.bind CatchUpRecord.anchorId⟩) := by
  cases hlast : (w.own.db.catchUps wallet.id).getLast? with
  | none => rw [hlast] at hset; cases hset
  | some r => exact ⟨hsize, (h.log r hlast).linked, (h.log r hlast).recovering⟩

/-- A last checkpoint without an anchor leaves no window open, and none before it has an anchor. -/
theorem Continuous.unanchored (h : Continuous wallet w) {size budget : Nat} (hsize : 1 ≤ size)
    (hunset : ¬ isSet ((w.own.db.catchUps wallet.id).getLast?.bind CatchUpRecord.anchorId) = true) :
    (w.view wallet).PcOk (.anchoring size budget (w.own.db.catchUps wallet.id).getLast?) := by
  cases hlast : (w.own.db.catchUps wallet.id).getLast? with
  | none =>
    refine ⟨hsize, rfl, fun k₀ hfirst => ?_⟩
    have hnone : w.own.db.firstAnchor wallet.id = none := by
      unfold Db.firstAnchor
      rw [List.getLast?_eq_none_iff.mp hlast]
      rfl
    exact absurd (hnone.symm.trans hfirst) nofun
  | some r =>
    rw [hlast] at hunset
    refine ⟨hsize, ?_, fun k₀ hfirst => ?_⟩
    · show r.catchUpIncomplete = false
      by_contra hopen
      rw [Bool.not_eq_false] at hopen
      exact hunset ((h.log r hlast).recovering hopen).1
    · by_contra hne
      exact hunset ((h.log r hlast).linked.isSet hfirst hne)

theorem one_le_pageSize (cfg : Settings) : 1 ≤ pageSize cfg := by
  unfold pageSize
  omega

theorem Continuous.own (h : Continuous wallet w) {e : CatchUpEvent}
    {own : CatchUp} (honest : e.honest)
    (hstep : w.own.next tx wallet e = some own) : Continuous wallet { w with own := own } := by
  have hpc := h.pc
  cases CatchUp.moves_of_next hstep with
  | begin cfg result here => exact h.move (one_le_pageSize cfg)
  | anchored size budget set here =>
    rw [here] at hpc
    exact h.move (h.anchored hpc set)
  | unanchored size budget unset here =>
    rw [here] at hpc
    exact h.move (h.unanchored hpc unset)
  | anchor size budget prior here =>
    rw [here] at hpc
    obtain ⟨hsize, hprior, hfirst⟩ := hpc
    refine h.move ⟨hsize, fun k₀ hk hne => absurd (hfirst k₀ hk) hne, fun hopen => ?_⟩
    exact absurd (hprior.symm.trans hopen) nofun
  | latest b response here =>
    cases response with
    | ok rows => exact honest.elim
    | error err => exact h.goto fun p hp => by cases hp
  | page c left offset e response here =>
    cases response with
    | ok rows => exact honest.elim
    | error err => exact h.goto fun p hp => by cases hp
  | storeLatest c env now here =>
    rw [here] at hpc
    refine h.store fun v r pc hle hrows hr => ?_
    exact View.storedLatest_ok ((View.CycleOk.le hpc hle).count r) hrows hr
  | storePage c left offset rows pageKeys env now here =>
    rw [here] at hpc
    obtain ⟨hin, hpage⟩ := hpc
    refine h.store fun v r pc hle hrows hr => ?_
    exact View.storedPage_ok ((hin.le hle).count r) (hpage.le hle) hrows hr
  | commit c reason after here => exact h.commit here
  | refresh c left here =>
    rw [here] at hpc
    exact h.goto fun p hp => View.takeTurn_ok hpc hp
  | crash => exact h.goto fun p hp => by cases hp

/-- A response of the source to the request that is out. -/
theorem Continuous.reply (h : Continuous wallet w) {r : TradesRequest} {own : CatchUp}
    (hasked : w.own.pc.request = some r)
    (hstep : w.own.next tx wallet (.fetch (.ok (w.source.getTrades r))) = some own) :
    Continuous wallet { w with own := own } := by
  have hpc := h.pc
  cases CatchUp.moves_of_next hstep with
  | latest b response here =>
    rw [here] at hpc hasked
    obtain rfl := Option.some.inj hasked
    exact h.goto fun p hp => View.gotLatest_ok hpc hp
  | page c left offset e response here =>
    rw [here] at hpc hasked
    obtain rfl := Option.some.inj hasked
    refine h.goto fun p hp => ?_
    obtain ⟨pageKeys, hkeys, rfl⟩ := map_ok hp
    exact View.gotPage_ok hpc hkeys

theorem Continuous.step (h : Continuous wallet w) {e : WorldEvent} {w' : World tx}
    (hs : WorldStep wallet w e w') :
    Continuous wallet w' := by
  cases hs with
  | arrive source grows =>
    exact h.grow grows (fun _ h => h) rfl (fun hle => h.pc.le hle) h.accounted
  | reply r own asked step => exact h.reply asked step
  | elsewhere db step =>
    refine h.grow (Log.Grows.refl _) (fun _ h => h) step.log (fun hle => h.pc.le hle) ?_
    intro raw hraw key hkey
    exact (h.accounted raw hraw key hkey).imp_left (step.trades key)
  | own e own honest step => exact h.own honest step

theorem World.Start.continuous (h : w.Start wallet) : Continuous wallet w := by
  refine ⟨fun r hr => ?_, ?_, fun raw hraw => ?_⟩
  · rw [h.log] at hr
    cases hr
  · rw [h.pc]
    trivial
  · rw [h.handed] at hraw
    exact (List.not_mem_nil hraw).elim

/-- In every run against an honest source, each trade after the first anchor and up to the
anchor of the last checkpoint has been handed to a committed `ingest_trade_rows`, so it is
stored or was quarantined.  A checkpoint that is not incomplete records the newest key the
cycle saw; one that is incomplete still records the anchor its window comes down to. -/
theorem catch_up_continuity {w₀ : World tx} {tr : List (WorldEvent × World tx)}
    (hstart : w₀.Start wallet) (hrun : Run (WorldStep wallet) w₀ tr w) {anchor₀ anchor : String}
    {current : CatchUpRecord} (hfirst : w.own.db.firstAnchor wallet.id = some anchor₀)
    (hcurrent : (w.own.db.catchUps wallet.id).getLast? = some current)
    (hanchor : current.anchorId = some anchor) {f a i : Nat} {t : SourceTrade tx}
    (hf : w.source.At anchor₀ f) (ha : w.source.At anchor a)
    (ht : w.source.entries[i]? = some t) (hlo : f < i) (hhi : i ≤ a) :
    t.raw ∈ w.own.handed ∧ Accounted w.own.db w.own.quarantined t.key := by
  have hinv : Continuous wallet w :=
    hrun.inv (Continuous wallet) (fun _ _ _ h hs => h.step hs) hstart.continuous
  have hne : anchor₀ ≠ "" := View.at_ne_empty (v := w.view wallet) hf
  obtain ⟨k, hk, hreached⟩ := (hinv.log current hcurrent).linked anchor₀ hfirst hne
  obtain rfl := Option.some.inj (hanchor.symm.trans hk)
  have hhanded : t.raw ∈ w.own.handed := hreached.spans hf ha i t hlo (by omega) ht
  exact ⟨hhanded, hinv.accounted t.raw hhanded t.key t.identified⟩

/-! ## A run that loses its anchor and recovers -/

/-- Several steps of the cycle itself and of the source. -/
def World.play (wallet : Wallet) : List WorldEvent → World tx → Option (World tx)
  | [], w => some w
  | .reply :: es, w => match w.own.pc.request with
    | some r => (w.own.next tx wallet (.fetch (.ok (w.source.getTrades r)))).bind
      fun own => World.play wallet es { w with own := own }
    | none => none
  | .own (.fetch (.ok _)) :: _, _ => none
  | .own e :: es, w =>
    (w.own.next tx wallet e).bind fun own => World.play wallet es { w with own := own }
  | _ :: _, _ => none

theorem World.play_run {es : List WorldEvent} {w w' : World tx} (h : w.play wallet es = some w') :
    (∃ tr, Run (fun w e w' => WorldStep wallet w e w' ∧ e ≠ .elsewhere) w tr w') ∧
    w'.source = w.source := by
  fun_induction World.play wallet es w with
  | case1 w =>
    obtain rfl := Option.some.inj h
    exact ⟨⟨[], Run.nil⟩, rfl⟩
  | case2 es w r hasked ih =>
    obtain ⟨own, hown, h⟩ := Option.bind_eq_some_iff.mp h
    obtain ⟨⟨tr, hrun⟩, hsource⟩ := ih own h
    have hstep := WorldStep.reply w r own hasked hown
    exact ⟨⟨_, Run.trans (.snoc .reply _ .nil ⟨hstep, nofun⟩) hrun⟩, hsource⟩
  | case3 => cases h
  | case4 => cases h
  | case5 e es w hne ih =>
    obtain ⟨own, hown, h⟩ := Option.bind_eq_some_iff.mp h
    obtain ⟨⟨tr, hrun⟩, hsource⟩ := ih own h
    have honest : e.honest := by
      cases e with
      | fetch response =>
        cases response with
        | ok rows => exact (hne rows rfl).elim
        | error e => trivial
      | _ => trivial
    have hstep := WorldStep.own w e own honest hown
    exact ⟨⟨_, Run.trans (.snoc (.own e) _ .nil ⟨hstep, nofun⟩) hrun⟩, hsource⟩
  | case6 => cases h

namespace Outage

def tracked : Wallet := ⟨1, "w", .approved, none⟩

def raw (hash timestamp : String) : Json :=
  .obj [("transactionHash", .str hash), ("proxyWallet", .str "w"),
    ("asset", .str "7"), ("conditionId", .str "c"),
    ("side", .str "BUY"), ("outcome", .str "Yes"), ("size", .num "1"), ("price", .num "0.5"),
    ("timestamp", .num timestamp)]

def older : SourceTrade Text.plain :=
  ⟨raw "0x0" "1", "data-api:0x0:w:7:1:0.5:1", 1, by decide +kernel,
    ⟨_, "1", rfl, rfl, by decide +kernel⟩, by decide⟩

def missed : SourceTrade Text.plain :=
  ⟨raw "0x1" "2", "data-api:0x1:w:7:1:0.5:2", 2, by decide +kernel,
    ⟨_, "2", rfl, rfl, by decide +kernel⟩, by decide⟩

def newest : SourceTrade Text.plain :=
  ⟨raw "0x2" "2", "data-api:0x2:w:7:1:0.5:2", 2, by decide +kernel,
    ⟨_, "2", rfl, rfl, by decide +kernel⟩, by decide⟩

def before : Source Text.plain := ⟨[older], by decide, by decide⟩

def after : Source Text.plain := ⟨[older, missed, newest], by decide +kernel, by decide +kernel⟩

def start : World Text.plain :=
  ⟨before, ⟨{ Db.empty with wallets := [tracked] }, .idle none, [], []⟩⟩

def env : PageEnv := ⟨fun _ => .ok (.arr []), fun _ => none, 0⟩

/-- Pages of one row. -/
def begin : WorldEvent := .own (.begin { ingestionBatchSize := 1 })

def firstCycle : List WorldEvent :=
  [begin, .own .select, .own .select, .reply, .own (.store env 0), .own .commit]

def page : List WorldEvent := [.own .refresh, .reply, .own (.store env 0), .own .commit]

/-- The recovery crashes after its first page. -/
def secondCycle : List WorldEvent :=
  [begin, .own .select, .reply, .own (.store env 0), .own .commit] ++ page ++ [.own .crash]

def thirdCycle : List WorldEvent :=
  [begin, .own .select, .reply, .own (.store env 0), .own .commit] ++ page ++ page

def final : Option (World Text.plain) :=
  (start.play tracked firstCycle).bind fun w =>
    World.play tracked (secondCycle ++ thirdCycle) { w with source := after }

end Outage

theorem catch_up_continuity_outage : ∃ w tr, Run (WorldStep Outage.tracked) Outage.start tr w ∧
    ((w.own.db.catchUps 1).getLast?.map CatchUpRecord.catchUpIncomplete) = some false ∧
    Outage.missed.raw ∈ w.own.handed ∧ Accounted w.own.db w.own.quarantined Outage.missed.key := by
  obtain ⟨w, hfinal⟩ : ∃ w, Outage.final = some w := Option.isSome_iff_exists.mp (by decide +kernel)
  have hends : Outage.final.any (fun w => w.own.db.firstAnchor 1 = some Outage.older.key &&
      ((w.own.db.catchUps 1).getLast?.map fun r => (r.anchorId, r.catchUpIncomplete)) =
        some (some Outage.newest.key, false)) = true := by
    decide +kernel
  rw [hfinal] at hends
  simp only [Option.any_some, Bool.and_eq_true, decide_eq_true_eq] at hends
  obtain ⟨hfirst, hlast⟩ := hends
  obtain ⟨current, hcurrent, hlast⟩ := Option.map_eq_some_iff.mp hlast
  obtain ⟨hanchor, hdone⟩ := Prod.mk.inj hlast
  obtain ⟨w₁, hfirstCycle, hrest⟩ := Option.bind_eq_some_iff.mp hfinal
  obtain ⟨⟨tr₁, hrun₁⟩, hsource₁⟩ := World.play_run hfirstCycle
  obtain ⟨⟨tr₂, hrun₂⟩, hsource₂⟩ := World.play_run hrest
  have hgrows : w₁.source.Grows Outage.after := by
    rw [hsource₁]
    exact ⟨[Outage.missed, Outage.newest], rfl⟩
  have hsteps : ∀ {w w' : World Text.plain} {tr},
      Run (fun w e w' => WorldStep Outage.tracked w e w' ∧ e ≠ .elsewhere) w tr w' →
      Run (WorldStep Outage.tracked) w tr w' :=
    fun h => h.mono (fun _ => True) (fun _ _ _ _ _ => trivial) (fun _ _ _ _ hs => hs.1) trivial
  have hrun :=
    ((hsteps hrun₁).snoc _ _ (WorldStep.arrive w₁ Outage.after hgrows)).trans (hsteps hrun₂)
  refine ⟨w, _, hrun, by rw [hcurrent, Option.map_some, hdone], ?_⟩
  have hsource : w.source = Outage.after := hsource₂
  refine catch_up_continuity ⟨rfl, rfl, rfl, rfl⟩ hrun hfirst hcurrent hanchor
    (f := 0) (a := 2) (i := 1) ?_ ?_ ?_
    (by decide) (by decide)
  · rw [hsource]
    exact ⟨Outage.older, rfl, rfl⟩
  · rw [hsource]
    exact ⟨Outage.newest, rfl, rfl⟩
  · rw [hsource]
    rfl

end Polycopy
