import Polycopy.Ingestion.Gaps

/-!
# The flag an operator is shown

`get_wallet_catch_up` shows the last checkpoint.  A cycle whose latest page holds the
anchor of the checkpoint before it decides that nothing is missing, but writes that down
only when the first row of the page is another one: a window that is open when the
wallet has not traded since stays open in the log, cycle after cycle.

`Viewed` is a cycle with the checkpoint that preceded it and its latest page;
`Told` is what each place of the cycle knows about the flag.
-/

namespace Polycopy

open Py Runs

variable {tx : Text} {wallet : Wallet}

/-- The checkpoint that preceded a cycle, and the newest page it has fetched. -/
structure Sight where
  before : Option CatchUpRecord
  latest : Option (List Json)

structure Viewed extends Sight where
  own : CatchUp

namespace Sight

/-- The latest page contains the anchor of the checkpoint before. -/
def Overlaps (tx : Text) (o : Sight) : Prop :=
  ∃ p rows a raw, o.before = some p ∧ o.latest = some rows ∧ p.anchorId = some a ∧ raw ∈ rows ∧
    canonicalTradeId tx raw = .ok a

/-- The window was open, and the wallet has not traded since the anchor. -/
def Unmoved (tx : Text) (o : Sight) : Prop :=
  ∃ p rows, o.before = some p ∧ o.latest = some rows ∧ p.catchUpIncomplete = true ∧
    firstKey tx rows = p.anchorId

end Sight

namespace Viewed

/-- What a step of the cycle shows. -/
def see (wallet : Wallet) (o : Viewed) (e : CatchUpEvent) (own : CatchUp) : Viewed :=
  match o.own.pc, e with
  | .idle _, .begin _ => ⟨⟨(o.own.db.catchUps wallet.id).getLast?, none⟩, own⟩
  | .awaitLatest _, .fetch (.ok rows) => ⟨⟨o.before, some rows⟩, own⟩
  | _, _ => { o with own := own }

/-- The status `GET /wallets/{wallet_id}/catch-up` shows. -/
def status (wallet : Wallet) (o : Viewed) : Option CatchUpRecord :=
  (o.own.db.catchUps wallet.id).getLast?

end Viewed

/-- A step of the cycle, or a commit of another process. -/
inductive ViewedStep (tx : Text) (wallet : Wallet) (o : Viewed) :
    Option CatchUpEvent → Viewed → Prop
  | own (e : CatchUpEvent) (own : CatchUp) (step : o.own.next tx wallet e = some own) :
      ViewedStep tx wallet o (some e) (o.see wallet e own)
  | elsewhere (db : Db) (step : CatchUpElsewhere wallet.id o.own.db db) :
      ViewedStep tx wallet o none { o with own := { o.own with db := db } }

/-! ## Where the flag is decided -/

/-- The latest page is behind. -/
def CatchUpPc.beyondLatest : CatchUpPc → Bool
  | .idle _ => true
  | .checkpoint _ _ _ => true
  | .turn _ _ => true
  | .awaitPage _ _ _ _ => true
  | .storePage _ _ _ _ _ => true
  | _ => false

theorem storedLatest_beyond {c : Cycle} {now : Time} {pc : CatchUpPc}
    (h : storedLatest c now = .ok pc) :
    pc.beyondLatest = true := by
  unfold storedLatest at h
  dsimp only at h
  split at h
  · obtain ⟨e, -, h⟩ := bind_ok h
    obtain rfl := Except.ok.inj h
    rfl
  · split at h
    · obtain rfl := Except.ok.inj h
      rfl
    · split at h
      · obtain rfl := Except.ok.inj h
        rfl
      · obtain rfl := Except.ok.inj h
        rfl

theorem storedPage_beyond {c : Cycle} {left offset : Nat} {rows : List Json}
    {pageKeys : List String} {now : Time} {pc : CatchUpPc}
    (h : storedPage c left offset rows pageKeys now = .ok pc) :
    pc.beyondLatest = true := by
  obtain ⟨times, -, h⟩ := bind_ok h
  dsimp only at h
  split at h
  · split at h
    · obtain ⟨e, -, h⟩ := bind_ok h
      obtain rfl := Except.ok.inj h
      rfl
    · obtain rfl := Except.ok.inj h
      rfl
  · split at h
    · obtain rfl := Except.ok.inj h
      rfl
    · obtain rfl := Except.ok.inj h
      rfl

theorem takeTurn_beyond {c : Cycle} {left : Nat} {w : Option Wallet} {pc : CatchUpPc}
    (h : takeTurn c left w = .ok pc) :
    pc.beyondLatest = true := by
  unfold takeTurn at h
  split at h
  · cases h
  · split at h
    · obtain rfl := Except.ok.inj h
      rfl
    · split at h
      · split at h
        · obtain rfl := Except.ok.inj h
          rfl
        · obtain ⟨e, -, rfl⟩ := map_ok h
          split <;> rfl
      · obtain ⟨e, -, rfl⟩ := map_ok h
        rfl

theorem resume_beyond (c : Cycle) (after : After) : (resume c after).beyondLatest = true := by
  unfold resume
  split <;> rfl

/-- A page that holds the anchor closes the window; a checkpoint follows where its
first row is another one. -/
theorem storedLatest_overlap {c : Cycle} (now : Time) (hover : among c.anchor c.latestKeys = true) :
    (c.latestAnchor = c.anchor ∧ c.prior.isSome = true ∧
      storedLatest c now = .ok (.idle (some c.result))) ∨
    (∃ c' reason, storedLatest c now = .ok (.checkpoint c' reason .done) ∧ c'.incomplete = false) ∧
      (c.latestAnchor ≠ c.anchor ∨ c.prior = none) := by
  unfold storedLatest
  rw [Cycle.moveHead_eq]
  dsimp only
  rw [hover]
  simp only [Bool.not_true, Bool.and_false, Bool.false_eq_true, if_false]
  by_cases hprior : c.prior = none
  · rw [hprior, Option.isNone_none, Bool.true_or, if_pos rfl]
    exact .inr ⟨⟨_, _, rfl, rfl⟩, .inr rfl⟩
  · by_cases hsame : c.latestAnchor = c.anchor
    · left
      refine ⟨hsame, Option.isSome_iff_ne_none.mpr hprior, ?_⟩
      simp [hsame, hprior]
    · have hwrites : (c.prior.isNone || decide (c.latestAnchor ≠ c.anchor)) = true := by
        simp [hsame]
      rw [if_pos hwrites]
      exact .inr ⟨⟨_, _, rfl, rfl⟩, .inl hsame⟩

/-! ## What the cycle knows -/

namespace Sight

/-- The cycle has its anchor from the checkpoint before, where that has one. -/
def Anchored (o : Sight) (b : Baseline) : Prop :=
  b.prior = o.before ∧ (isSet (o.before.bind CatchUpRecord.anchorId) = true →
    b.anchor = o.before.bind CatchUpRecord.anchorId)

structure Read (tx : Text) (o : Sight) (c : Cycle) : Prop where
  anchored : o.Anchored c.toBaseline
  latest : o.latest = some c.latest
  latestKeys : keys tx c.latest = .ok c.latestKeys
  latestAnchor : c.latestAnchor = (firstKey tx c.latest).or c.anchor

/-- … where the log ends with `last`. -/
def Told (tx : Text) (o : Sight) (last : Option CatchUpRecord) : CatchUpPc → Prop
  | .idle none => True
  | .idle (some _) =>
    o.Overlaps tx → (last.map CatchUpRecord.catchUpIncomplete = some false ↔ ¬ o.Unmoved tx)
  | .selecting _ _ => o.before = last
  | .anchoring _ _ prior => o.before = last ∧ prior = o.before ∧
      ¬ isSet (o.before.bind CatchUpRecord.anchorId) = true
  | .awaitLatest b => o.before = last ∧ o.Anchored b
  | .storeLatest c => o.before = last ∧ o.Read tx c
  | .checkpoint c _ after => o.Overlaps tx → c.incomplete = false ∧ after = .done ∧ ¬ o.Unmoved tx
  | .turn _ _ => ¬ o.Overlaps tx
  | .awaitPage _ _ _ _ => ¬ o.Overlaps tx
  | .storePage _ _ _ _ _ => ¬ o.Overlaps tx

variable {o : Sight} {last : Option CatchUpRecord}

/-- Of a cycle whose latest page does not hold the anchor nothing is claimed. -/
theorem told_of_beyond {pc : CatchUpPc} (h : ¬ o.Overlaps tx)
    (hpc : pc.beyondLatest = true) : o.Told tx last pc := by
  cases pc with
  | idle result =>
    cases result with
    | none => trivial
    | some result => exact fun hover => absurd hover h
  | checkpoint c reason after => exact fun hover => absurd hover h
  | turn c left => exact h
  | awaitPage c left offset e => exact h
  | storePage c left offset rows pageKeys => exact h
  | selecting size budget => cases hpc
  | anchoring size budget prior => cases hpc
  | awaitLatest b => cases hpc
  | storeLatest c => cases hpc

theorem Overlaps.read {c : Cycle} (h : o.Overlaps tx) (hread : o.Read tx c) :
    ∃ p, o.before = some p ∧ p.anchorId = c.anchor ∧ among c.anchor c.latestKeys = true ∧
      c.latestAnchor = firstKey tx c.latest ∧ c.prior = some p := by
  obtain ⟨p, rows, a, raw, hbefore, hlatest, ha, hraw, hkey⟩ := h
  obtain rfl := Option.some.inj (hread.latest.symm.trans hlatest)
  have hbind : o.before.bind CatchUpRecord.anchorId = some a := by
    rw [hbefore, Option.bind_some, ha]
  have hset : isSet (o.before.bind CatchUpRecord.anchorId) = true := by
    rw [hbind]
    exact decide_eq_true (canonicalTradeId_ne_empty hkey)
  have hanchor : c.anchor = some a := (hread.anchored.2 hset).trans hbind
  have hfirst : (firstKey tx c.latest).isSome = true := by
    unfold firstKey
    rw [List.findSome?_isSome_iff]
    exact ⟨raw, hraw, by rw [hkey]; rfl⟩
  obtain ⟨k, hk⟩ := Option.isSome_iff_exists.mp hfirst
  refine ⟨p, hbefore, ha.trans hanchor.symm, ?_, ?_, hread.anchored.1.trans hbefore⟩
  · rw [hanchor]
    exact View.among_iff.mpr ⟨a, rfl, keys_mem hread.latestKeys raw hraw a hkey⟩
  · rw [hread.latestAnchor, hk, Option.some_or]

/-- Once the latest page is stored, the flag is as good as decided. -/
theorem told_storedLatest {c : Cycle} {now : Time} {pc : CatchUpPc} (hlast : o.before = last)
    (hread : o.Read tx c) (hpc : storedLatest c now = .ok pc) : o.Told tx last pc := by
  by_cases hover : o.Overlaps tx
  · obtain ⟨p, hbefore, hanchor, hamong, hfirst, hprior⟩ := hover.read hread
    have hunmoved : o.Unmoved tx ↔ p.catchUpIncomplete = true ∧ c.latestAnchor = c.anchor := by
      rw [hfirst, ← hanchor]
      constructor
      · rintro ⟨p', rows, hp', hrows, h⟩
        obtain rfl := Option.some.inj (hbefore.symm.trans hp')
        obtain rfl := Option.some.inj (hread.latest.symm.trans hrows)
        exact h
      · exact fun h => ⟨p, c.latest, hbefore, hread.latest, h⟩
    rcases storedLatest_overlap now hamong with
      ⟨hsame, -, hidle⟩ | ⟨⟨c', reason, hcheckpoint, hclosed⟩, hmoved⟩
    · obtain rfl := Except.ok.inj (hidle.symm.trans hpc)
      intro _
      rw [← hlast, hbefore, Option.map_some, hunmoved]
      simp [hsame]
    · obtain rfl := Except.ok.inj (hcheckpoint.symm.trans hpc)
      refine fun _ => ⟨hclosed, rfl, fun h => ?_⟩
      rcases hmoved with hmoved | hnone
      · exact hmoved (hunmoved.mp h).2
      · rw [hprior] at hnone
        cases hnone
  · exact told_of_beyond hover (storedLatest_beyond hpc)

theorem told_gotLatest {b : Baseline} {rows : List Json} {pc : CatchUpPc}
    (hlast : o.before = last) (hb : o.Anchored b) (hlatest : o.latest = some rows)
    (hpc : gotLatest tx b rows = .ok pc) : o.Told tx last pc := by
  obtain ⟨latestKeys, hkeys, hpc⟩ := bind_ok hpc
  obtain rfl := Except.ok.inj hpc
  exact ⟨hlast, hb, hlatest, hkeys, rfl⟩

theorem told_resume {c : Cycle} {reason : String} {after : After}
    (h : o.Told tx last (.checkpoint c reason after)) (wallet : Wallet) (reason' : String) :
    o.Told tx (some (c.record wallet reason')) (resume c after) := by
  by_cases hover : o.Overlaps tx
  · obtain ⟨hclosed, rfl, hmoved⟩ := h hover
    refine fun _ => iff_of_true ?_ hmoved
    show some c.incomplete = some false
    rw [hclosed]
  · exact told_of_beyond hover (resume_beyond c after)

end Sight

namespace Viewed

variable {o o' : Viewed}

def Told (tx : Text) (wallet : Wallet) (o : Viewed) : Prop :=
  o.toSight.Told tx (o.status wallet) o.own.pc

/-- A step inside the cycle that commits nothing. -/
theorem told_goto {sight : Sight} {pc : Except Exc CatchUpPc} {own : CatchUp}
    (hpc : ∀ p, pc = .ok p → sight.Told tx (own.db.catchUps wallet.id).getLast? p) :
    Told tx wallet ⟨sight, own.goto pc⟩ := by
  cases pc with
  | error e => trivial
  | ok p => exact hpc p rfl

theorem told_store {sight : Sight} {own : CatchUp} {env : PageEnv} {rows : List Json}
    {after : Ingested → Except Exc CatchUpPc}
    (hafter : ∀ r pc, after r = .ok pc → sight.Told tx (own.db.catchUps wallet.id).getLast? pc) :
    Told tx wallet ⟨sight, own.store tx env wallet.id rows after⟩ := by
  unfold CatchUp.store
  split
  · exact told_goto fun p hp => by cases hp
  · next r hr =>
    obtain ⟨markets, trades, hdb⟩ := (ingestTradeRows_ok hr).1.rest
    refine told_goto fun pc hpc => ?_
    have hlog : r.db.catchUps wallet.id = own.db.catchUps wallet.id := by
      rw [hdb]
      rfl
    show sight.Told tx (r.db.catchUps wallet.id).getLast? pc
    rw [hlog]
    exact hafter r pc hpc

theorem Told.own (h : o.Told tx wallet) {e : CatchUpEvent} {own : CatchUp}
    (hstep : o.own.next tx wallet e = some own) :
    (o.see wallet e own).Told tx wallet := by
  have hpc : o.toSight.Told tx (o.status wallet) o.own.pc := h
  unfold see
  cases CatchUp.moves_of_next hstep with
  | begin cfg result here =>
    rw [here]
    exact rfl
  | anchored size budget set here =>
    rw [here] at hpc ⊢
    have hprior : o.before = o.status wallet := hpc
    exact ⟨hprior, hprior.symm, fun _ => congrArg (Option.bind · CatchUpRecord.anchorId) hprior.symm⟩
  | unanchored size budget unset here =>
    rw [here] at hpc ⊢
    have hprior : o.before = o.status wallet := hpc
    refine ⟨hprior, hprior.symm, ?_⟩
    rw [hprior]
    exact unset
  | anchor size budget prior here =>
    rw [here] at hpc ⊢
    obtain ⟨hlast, hprior, hunset⟩ := hpc
    exact ⟨hlast, hprior, fun hset => absurd hset hunset⟩
  | latest b response here =>
    rw [here] at hpc ⊢
    obtain ⟨hlast, hb⟩ := hpc
    cases response with
    | error err => exact told_goto fun p hp => by cases hp
    | ok rows => exact told_goto fun p hp => Sight.told_gotLatest hlast hb rfl hp
  | page c left offset e response here =>
    rw [here] at hpc ⊢
    refine told_goto fun p hp => ?_
    obtain ⟨rows, -, hp⟩ := bind_ok hp
    obtain ⟨pageKeys, -, rfl⟩ := map_ok hp
    exact hpc
  | storeLatest c env now here =>
    rw [here] at hpc ⊢
    obtain ⟨hlast, hread⟩ := hpc
    exact told_store fun r pc hr =>
      Sight.told_storedLatest (c := c.count r) hlast
        ⟨hread.anchored, hread.latest, hread.latestKeys, hread.latestAnchor⟩ hr
  | storePage c left offset rows pageKeys env now here =>
    rw [here] at hpc ⊢
    exact told_store fun r pc hr => Sight.told_of_beyond hpc (storedPage_beyond hr)
  | commit c reason after here =>
    rw [here] at hpc ⊢
    have hlast := catchUps_log o.own.db "bot" (c.record wallet reason) wallet.id rfl
    show o.toSight.Told tx
      ((o.own.db.log "bot" (.walletCatchUp (c.record wallet reason))).catchUps wallet.id).getLast?
      (resume c after)
    rw [hlast, List.getLast?_concat]
    exact Sight.told_resume hpc wallet reason
  | refresh c left here =>
    rw [here] at hpc ⊢
    exact told_goto fun p hp => Sight.told_of_beyond hpc (takeTurn_beyond hp)
  | crash =>
    cases o.own.pc <;> exact told_goto fun p hp => by cases hp

theorem Told.step (h : o.Told tx wallet) {e : Option CatchUpEvent}
    (hs : ViewedStep tx wallet o e o') :
    o'.Told tx wallet := by
  cases hs with
  | own e own step => exact h.own step
  | elsewhere db step =>
    show o.toSight.Told tx (db.catchUps wallet.id).getLast? o.own.pc
    rw [step.log]
    exact h

end Viewed

/-- In every run, a cycle that has ended normally and whose latest page held the anchor of the
checkpoint before it leaves a log that says the window is closed, unless that checkpoint was
incomplete and the first row of the page is the anchor itself. -/
theorem catch_up_flag {o₀ o : Viewed} {tr : List (Option CatchUpEvent × Viewed)}
    (hstart : o₀.own.pc = .idle none) (hrun : Run (ViewedStep tx wallet) o₀ tr o)
    {result : WalletIngestionResult} (hended : o.own.pc = .idle (some result))
    (hover : o.Overlaps tx) :
    (o.status wallet).map CatchUpRecord.catchUpIncomplete = some false ↔ ¬ o.Unmoved tx := by
  have h₀ : o₀.Told tx wallet := by
    unfold Viewed.Told
    rw [hstart]
    trivial
  have h : o.Told tx wallet := hrun.inv (Viewed.Told tx wallet) (fun _ _ _ h hs => h.step hs) h₀
  unfold Viewed.Told at h
  rw [hended] at h
  exact h hover

/-! ## A flag that stays up -/

namespace Viewed

def play (tx : Text) (wallet : Wallet) : List CatchUpEvent → Viewed → Option Viewed
  | [], o => some o
  | e :: es, o => (o.own.next tx wallet e).bind fun own => play tx wallet es (o.see wallet e own)

theorem play_run {es : List CatchUpEvent} : ∀ {o o' : Viewed}, play tx wallet es o = some o' →
    ∃ tr, Run (ViewedStep tx wallet) o tr o' ∧ tr.map Prod.fst = es.map some := by
  induction es with
  | nil =>
    intro o o' h
    obtain rfl := Option.some.inj h
    exact ⟨[], .nil, rfl⟩
  | cons e es ih =>
    intro o o' h
    obtain ⟨own, hown, h⟩ := Option.bind_eq_some_iff.mp h
    obtain ⟨tr, hrun, hevents⟩ := ih h
    exact ⟨_, (Run.single (.own e own hown)).trans hrun, congrArg (some e :: ·) hevents⟩

end Viewed

namespace Flag

def start : Viewed :=
  ⟨⟨none, none⟩,
    { db := { Db.empty with wallets := [Outage.tracked] }, pc := .idle none, handed := [],
      quarantined := [] }⟩

def begin : CatchUpEvent := .begin {}

/-- A first cycle, whose page is the wallet's one trade. -/
def baseline : List CatchUpEvent :=
  [begin, .select, .select, .fetch (.ok [Outage.older.raw]), .store Outage.env 0, .commit]

/-- Two empty pages open a window, and leave it open. -/
def blank : List CatchUpEvent :=
  [begin, .select, .fetch (.ok []), .store Outage.env 0, .commit, .refresh, .fetch (.ok []),
    .store Outage.env 0, .commit]

/-- The trade is on the page again. -/
def again : List CatchUpEvent :=
  [begin, .select, .fetch (.ok [Outage.older.raw]), .store Outage.env 0]

/-- Another trade is on top of it. -/
def traded : List CatchUpEvent :=
  [begin, .select, .fetch (.ok [Outage.newest.raw, Outage.older.raw]), .store Outage.env 0, .commit]

def stuck : Option Viewed := Viewed.play Text.plain Outage.tracked (baseline ++ blank ++ again) start

def recovered : Option Viewed :=
  Viewed.play Text.plain Outage.tracked (baseline ++ blank ++ traded) start

end Flag

namespace Viewed

/-- The cycle has ended normally, its page held the anchor, and the flag is `incomplete`. -/
def ends (tx : Text) (wallet : Wallet) (incomplete : Bool) (o : Viewed) : Bool :=
  (match o.own.pc with
    | .idle (some _) => true
    | _ => false) &&
  (o.before.any fun p => o.latest.any fun rows => rows.any fun raw =>
    p.anchorId.isSome && (canonicalTradeId tx raw).toOption = p.anchorId) &&
  (o.status wallet).map CatchUpRecord.catchUpIncomplete = some incomplete

theorem of_ends {o : Viewed} {incomplete : Bool} (h : o.ends tx wallet incomplete = true) :
    (∃ result, o.own.pc = .idle (some result)) ∧ o.Overlaps tx ∧
      (o.status wallet).map CatchUpRecord.catchUpIncomplete = some incomplete := by
  unfold ends at h
  rw [Bool.and_eq_true, Bool.and_eq_true, decide_eq_true_eq] at h
  obtain ⟨⟨hended, hover⟩, hflag⟩ := h
  refine ⟨?_, ?_, hflag⟩
  · split at hended
    · next result here => exact ⟨result, here⟩
    · cases hended
  · obtain ⟨p, hp, hover⟩ := (Option.any_eq_true _ _).mp hover
    obtain ⟨rows, hrows, hover⟩ := (Option.any_eq_true _ _).mp hover
    obtain ⟨raw, hraw, hover⟩ := List.any_eq_true.mp hover
    rw [Bool.and_eq_true, decide_eq_true_eq] at hover
    obtain ⟨a, ha⟩ := Option.isSome_iff_exists.mp hover.1
    refine ⟨p, rows, a, raw, hp, hrows, ha, hraw, ?_⟩
    have hkey : (canonicalTradeId tx raw).toOption = some a := hover.2.trans ha
    cases hid : canonicalTradeId tx raw with
    | error e =>
      rw [hid] at hkey
      cases hkey
    | ok key =>
      rw [hid] at hkey
      rw [Option.some.inj hkey]

end Viewed

/-- A response of well-formed rows, and no crash. -/
def CatchUpEvent.wellFormed (tx : Text) : CatchUpEvent → Prop
  | .fetch (.ok rows) => ∀ raw ∈ rows, ∃ t : SourceTrade tx, t.raw = raw
  | .fetch (.error _) => False
  | .crash => False
  | _ => True

theorem catch_up_flag_stuck : ∃ tr o result,
    Run (ViewedStep Text.plain Outage.tracked) Flag.start tr o ∧
    (∀ e ∈ tr.map Prod.fst, ∃ own, e = some own ∧ own.wellFormed Text.plain) ∧
    o.own.pc = .idle (some result) ∧
    o.Overlaps Text.plain ∧
    (o.status Outage.tracked).map CatchUpRecord.catchUpIncomplete = some true := by
  obtain ⟨o, hstuck⟩ : ∃ o, Flag.stuck = some o := Option.isSome_iff_exists.mp (by decide +kernel)
  have hends : Flag.stuck.any (Viewed.ends Text.plain Outage.tracked true) = true := by
    decide +kernel
  rw [hstuck] at hends
  obtain ⟨⟨result, hidle⟩, hover, hflag⟩ := Viewed.of_ends hends
  obtain ⟨tr, hrun, hevents⟩ := Viewed.play_run hstuck
  refine ⟨tr, o, result, hrun, fun e he => ?_, hidle, hover, hflag⟩
  rw [hevents] at he
  obtain ⟨own, hown, rfl⟩ := List.mem_map.mp he
  refine ⟨own, rfl, ?_⟩
  have holder : ∀ raw ∈ [Outage.older.raw], ∃ t : SourceTrade Text.plain, t.raw = raw := by
    intro raw hraw
    obtain rfl := List.mem_singleton.mp hraw
    exact ⟨Outage.older, rfl⟩
  have hblank : ∀ raw ∈ ([] : List Json), ∃ t : SourceTrade Text.plain, t.raw = raw :=
    fun raw hraw => (List.not_mem_nil hraw).elim
  simp only [Flag.baseline, Flag.blank, Flag.again, List.cons_append, List.nil_append,
    List.mem_cons, List.not_mem_nil, or_false] at hown
  rcases hown with
    rfl | rfl | rfl | rfl | rfl | rfl | rfl | rfl | rfl | rfl | rfl | rfl | rfl | rfl | rfl | rfl | rfl |
    rfl | rfl
  all_goals first | exact holder | exact hblank | exact True.intro

theorem catch_up_flag_traded : ∃ tr o, Run (ViewedStep Text.plain Outage.tracked) Flag.start tr o ∧
    ((o.status Outage.tracked).map CatchUpRecord.catchUpIncomplete = some false ↔
      ¬ o.Unmoved Text.plain) := by
  obtain ⟨o, hrecovered⟩ : ∃ o, Flag.recovered = some o :=
    Option.isSome_iff_exists.mp (by decide +kernel)
  have hends : Flag.recovered.any (Viewed.ends Text.plain Outage.tracked false) = true := by
    decide +kernel
  rw [hrecovered] at hends
  obtain ⟨⟨result, hidle⟩, hover, hflag⟩ := Viewed.of_ends hends
  obtain ⟨tr, hrun, -⟩ := Viewed.play_run hrecovered
  exact ⟨tr, o, hrun, catch_up_flag rfl hrun hidle hover⟩

end Polycopy
