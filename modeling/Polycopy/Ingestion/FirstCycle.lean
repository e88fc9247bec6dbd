import Polycopy.Ingestion.Gaps

/-!
# From the first cycle on

In a run in which no step leaves a gap behind (`Unbroken`), all trades since the
newest one stored at its start are followed: up to the first anchor by the cycles
before it, from there on by the continuity of the checkpoints.
-/

namespace Polycopy

open Py Feed Runs

variable {tx : Text} {wallet : Wallet}

/-! ## Runs -/

/-- No gap is left behind by a cycle that, before any checkpoint has an anchor, stops with its
newest page stored or writes a checkpoint without opening a window. -/
def Unbroken (wallet : Wallet) (w : World tx) (e : WorldEvent) (_ : World tx) : Prop :=
  w.own.db.firstAnchor wallet.id = none → ∀ c reason after, w.own.pc = .checkpoint c reason after →
    (e = .own .crash ∨ e = .own .commit ∧ c.incomplete = false) → c.LeavesNoGap w.source

/-- Cycles of one process: no other one stores a newer trade of the wallet. -/
def CycleStep (wallet : Wallet) (w : World tx) (e : WorldEvent) (w' : World tx) : Prop :=
  WorldStep wallet w e w' ∧
    (e = .elsewhere → w'.own.db.newestTrade wallet.id = w.own.db.newestTrade wallet.id)

/-- Before the first cycle; the newest trade stored is one of the source. -/
structure World.FirstStart (wallet : Wallet) (w : World tx) :
    Prop extends World.Start wallet w where
  known : ∀ k, w.own.db.newestTrade wallet.id = some k → ∃ s, w.source.At k s

/-- Where the last checkpoint is not incomplete, every trade newer than `start` and not newer than
its anchor is stored or was quarantined. -/
def FollowedSince (wallet : Wallet) (start : Option String) (w : World tx) : Prop :=
  ∀ r anchor a i t, (w.own.db.catchUps wallet.id).getLast? = some r → r.catchUpIncomplete = false →
    r.anchorId = some anchor → w.source.At anchor a → w.source.entries[i]? = some t → i ≤ a →
    NewerThan w.source start i → Accounted w.own.db w.own.quarantined t.key

/-! ## Steps of a run -/

/-- No checkpoint has an anchor, so the last has none. -/
theorem last_unset {db : Db} {walletId : Nat} (hnone : db.firstAnchor walletId = none) :
    isSet ((db.catchUps walletId).getLast?.bind CatchUpRecord.anchorId) = false := by
  rw [Bool.eq_false_iff]
  intro hset
  obtain ⟨k, hk, -⟩ := View.isSet_iff.mp hset
  obtain ⟨r, hr, hanchor⟩ := Option.bind_eq_some_iff.mp hk
  have hmem := List.findSome?_eq_none_iff.mp hnone r (List.mem_of_getLast? hr)
  rw [hanchor] at hmem
  cases hmem

/-- A page that is stored writes no checkpoint. -/
theorem store_kept (walletId : Nat) (s : CatchUp) (env : PageEnv) (rows : List Json)
    (after : Ingested → Except Exc CatchUpPc) :
    (s.store tx env walletId rows after).db.catchUps walletId = s.db.catchUps walletId ∧
      ∀ raw ∈ s.handed, raw ∈ (s.store tx env walletId rows after).handed := by
  unfold CatchUp.store
  split
  · exact ⟨rfl, fun _ hraw => hraw⟩
  · next r hr =>
    obtain ⟨markets, trades, hdb⟩ := (ingestTradeRows_ok hr).1.rest
    refine ⟨?_, fun _ hraw => List.mem_append_left _ hraw⟩
    show r.db.catchUps walletId = _
    rw [hdb]
    rfl

structure Following (wallet : Wallet) (lo : Nat) (w : World tx) : Prop where
  continuous : Continuous wallet w
  followed : (w.view wallet).Followed lo (w.own.db.firstAnchor wallet.id)
  waiting : w.own.db.firstAnchor wallet.id = none →
    (w.view wallet).Waiting lo (w.own.db.newestTrade wallet.id) w.own.pc

namespace Following

variable {lo : Nat} {w w' : World tx}

/-- What leaves the log of checkpoints alone. -/
theorem quiet (h : Following wallet lo w) (hcontinuous : Continuous wallet w')
    (hsource : w.source.Grows w'.source) (hhanded : ∀ raw ∈ w.own.handed, raw ∈ w'.own.handed)
    (hlog : w'.own.db.catchUps wallet.id = w.own.db.catchUps wallet.id)
    (hwaiting : (w.view wallet).Waiting lo (w.own.db.newestTrade wallet.id) w.own.pc →
      w.own.db.firstAnchor wallet.id = none → (w.view wallet).Le (w'.view wallet) →
      (w'.view wallet).Waiting lo (w'.own.db.newestTrade wallet.id) w'.own.pc) :
      Following wallet lo w' := by
  have hfirst : w'.own.db.firstAnchor wallet.id = w.own.db.firstAnchor wallet.id := by
    unfold Db.firstAnchor
    rw [hlog]
  have hle : (w.view wallet).Le (w'.view wallet) := ⟨hsource, hhanded, hfirst⟩
  refine ⟨hcontinuous, ?_, fun hnone => ?_⟩
  · rw [hfirst]
    exact h.followed.grows hsource hhanded
  · rw [hfirst] at hnone
    exact hwaiting (h.waiting hnone) hnone hle

/-- A move that commits nothing. -/
theorem move (h : Following wallet lo w) {pc : CatchUpPc}
    (hcontinuous : Continuous wallet { w with own := { w.own with pc := pc } })
    (hwaiting : (w.view wallet).Waiting lo (w.own.db.newestTrade wallet.id) w.own.pc →
      w.own.db.firstAnchor wallet.id = none →
      (w.view wallet).Waiting lo (w.own.db.newestTrade wallet.id) pc) :
    Following wallet lo { w with own := { w.own with pc := pc } } :=
  h.quiet hcontinuous (Log.Grows.refl _) (fun _ hraw => hraw) rfl fun hw hnone _ => hwaiting hw hnone

/-- The newest page is stored: the newest trade stored is as before, or on it. -/
theorem store (h : Following wallet lo w) {env : PageEnv} {now : Time} {c : Cycle}
    (hw : w.own.pc = .storeLatest c)
    (hcontinuous : Continuous wallet { w with
      own := w.own.store tx env wallet.id c.latest fun r => storedLatest (c.count r) now }) :
    Following wallet lo { w with
      own := w.own.store tx env wallet.id c.latest fun r => storedLatest (c.count r) now } := by
  have hpc := h.continuous.pc
  rw [hw] at hpc
  unfold CatchUp.store at hcontinuous ⊢
  split at hcontinuous
  · refine h.move hcontinuous fun hwaiting _ => ?_
    rw [hw] at hwaiting
    exact hwaiting.1
  · next r hr =>
    obtain ⟨new, hnew, hids⟩ := ingestTradeRows_new hr
    obtain ⟨markets, trades, hdb⟩ := (ingestTradeRows_ok hr).1.rest
    have hlog : r.db.catchUps wallet.id = w.own.db.catchUps wallet.id := by
      rw [hdb]
      rfl
    refine h.quiet hcontinuous (Log.Grows.refl _)
      (fun _ hraw => List.mem_append_left _ hraw) hlog fun hwaiting _ hle => ?_
    rw [hw] at hwaiting
    obtain ⟨hfollowed, hanchor, hclosed, hkeys, htime⟩ := hwaiting
    have hnewest : r.db.newestTrade wallet.id = c.anchor ∨
        ∃ k ∈ c.latestKeys, r.db.newestTrade wallet.id = some k := by
      rw [hanchor]
      refine (newestTrade_append hnew wallet.id).imp id ?_
      rintro ⟨t, ht, hlast⟩
      obtain ⟨raw, hraw, hid⟩ := hids t ht
      exact ⟨_, keys_mem hkeys raw hraw _ hid, hlast⟩
    have hpage : View.FirstPage ⟨w.source, w.own.handed ++ c.latest, r.db.firstAnchor wallet.id⟩ lo
        (r.db.newestTrade wallet.id) (c.count r) := by
      refine ⟨?_, fun raw hraw => List.mem_append_right _ hraw,
        (View.CycleOk.shows hpc).le hle, fun hopen => ?_, hnewest⟩
      · show View.Followed _ lo c.anchor
        rw [hanchor]
        exact hfollowed.grows (Log.Grows.refl _) fun _ hraw => List.mem_append_left _ hraw
      · rw [show (c.count r).incomplete = false from hclosed] at hopen
        cases hopen
    obtain ⟨pc, hstored, hafter⟩ := hpage.storedLatest hclosed (htime now)
    show View.Waiting _ lo (r.db.newestTrade wallet.id)
      ((storedLatest (c.count r) now).toOption.getD (.idle none))
    rw [hstored]
    exact hafter

theorem reply (h : Following wallet lo w) {r : TradesRequest} {own : CatchUp}
    (hasked : w.own.pc.request = some r)
    (hstep : w.own.next tx wallet (.fetch (.ok (w.source.getTrades r))) = some own) :
    Following wallet lo { w with own := own } := by
  have hcontinuous := h.continuous.reply hasked hstep
  cases CatchUp.moves_of_next hstep with
  | latest b response here =>
    rw [here] at hasked
    obtain rfl := Option.some.inj hasked
    refine h.move hcontinuous fun hwaiting _ => ?_
    rw [here] at hwaiting
    obtain ⟨hfollowed, hanchor, hclosed⟩ := hwaiting
    have hrows := getTrades_latest w.source b.size
    show View.Waiting _ lo _ ((gotLatest tx b _).toOption.getD (.idle none))
    rw [hrows]
    unfold gotLatest
    rw [keys_raw]
    exact ⟨hfollowed, hanchor, hclosed, keys_raw _, newestTimestamp_raw _⟩
  | page c left offset e response here =>
    refine h.move hcontinuous fun hwaiting _ => ?_
    rw [here] at hwaiting
    exact hwaiting.elim

/-- The first checkpoint with an anchor: of a window, the anchor of the cycle; else the
first row of the page. -/
theorem commit (h : Following wallet lo w) {c : Cycle} {reason : String} {after : After}
    (hw : w.own.pc = .checkpoint c reason after)
    (hgap : w.own.db.firstAnchor wallet.id = none → c.incomplete = false → c.LeavesNoGap w.source) :
    Following wallet lo { w with own := { w.own with
      db := w.own.db.log "bot" (.walletCatchUp (c.record wallet reason)), pc :=
        resume c after } } := by
  have hcontinuous := h.continuous.commit hw
  have hpc := h.continuous.pc
  rw [hw] at hpc
  obtain ⟨hrecord, -⟩ := hpc
  have hfirst :
      (w.own.db.log "bot" (.walletCatchUp (c.record wallet reason))).firstAnchor wallet.id =
      (w.own.db.firstAnchor wallet.id).or (c.record wallet reason).anchorId := by
    unfold Db.firstAnchor
    rw [catchUps_log w.own.db "bot" (c.record wallet reason) wallet.id rfl, List.findSome?_append]
    simp
  have hgo : ∀ {key : Option String}, (w.view wallet).Followed lo key →
    View.Followed (World.view wallet { w with own := { w.own with
      db := w.own.db.log "bot" (.walletCatchUp (c.record wallet reason))
      pc := resume c after } }) lo key :=
    fun hfollowed => hfollowed
  cases hanchored : w.own.db.firstAnchor wallet.id with
  | some k₀ =>
    rw [hanchored, Option.some_or] at hfirst
    refine ⟨hcontinuous, ?_, fun hnone => ?_⟩
    · show View.Followed _ lo (Db.firstAnchor _ wallet.id)
      rw [hfirst, ← hanchored]
      exact hgo h.followed
    · cases hfirst.symm.trans hnone
  | none =>
    rw [hanchored, Option.none_or] at hfirst
    have hwaiting := h.waiting hanchored
    rw [hw] at hwaiting
    obtain ⟨hpage, hdone⟩ := hwaiting
    refine ⟨hcontinuous, ?_, fun hnone => ?_⟩
    · show View.Followed _ lo (Db.firstAnchor _ wallet.id)
      rw [hfirst]
      apply hgo
      unfold Cycle.record
      dsimp only
      split
      · next hopen =>
        rw [hpage.window hopen]
        exact hpage.followed
      · next hclosed =>
        rw [Bool.not_eq_true] at hclosed
        exact (hpage.reaches (hgap hanchored hclosed)).1
    · have hblank : (c.record wallet reason).anchorId = none := hfirst.symm.trans hnone
      -- a window has an anchor
      have hclosed : c.incomplete = false := by
        by_contra hopen
        rw [Bool.not_eq_false] at hopen
        have hset := ((hrecord wallet reason).recovering hopen).1
        rw [hblank] at hset
        cases hset
      show View.Waiting _ lo _ (resume c after)
      rw [hdone hclosed]
      exact hgo (hpage.reaches (hgap hanchored hclosed)).2

/-- Where a cycle stops, the next one takes the newest trade stored. -/
theorem stop (h : Following wallet lo w) {pc : Except Exc CatchUpPc} (hpc : pc.toOption = none)
    (hcontinuous : Continuous wallet { w with own := w.own.goto pc })
    (hgap : w.own.db.firstAnchor wallet.id = none →
      ∀ c reason after, w.own.pc = .checkpoint c reason after →
      c.LeavesNoGap w.source) : Following wallet lo { w with own := w.own.goto pc } := by
  refine h.move hcontinuous fun hwaiting hnone => ?_
  rw [hpc]
  show View.Followed _ lo _
  cases hw : w.own.pc with
  | idle result => rw [hw] at hwaiting; exact hwaiting
  | selecting size budget => rw [hw] at hwaiting; exact hwaiting
  | anchoring size budget prior => rw [hw] at hwaiting; exact hwaiting
  | awaitLatest b => rw [hw] at hwaiting; exact hwaiting.1
  | storeLatest c => rw [hw] at hwaiting; exact hwaiting.1
  | checkpoint c reason after =>
    rw [hw] at hwaiting
    exact (hwaiting.1.reaches (hgap hnone c reason after hw)).2
  | turn c left => rw [hw] at hwaiting; exact hwaiting.elim
  | awaitPage c left offset e => rw [hw] at hwaiting; exact hwaiting.elim
  | storePage c left offset rows pageKeys => rw [hw] at hwaiting; exact hwaiting.elim

theorem own (h : Following wallet lo w) {e : CatchUpEvent} {own : CatchUp} (honest : e.honest)
    (hunbroken : Unbroken wallet w (.own e) { w with own := own })
    (hstep : w.own.next tx wallet e = some own) :
    Following wallet lo { w with own := own } := by
  have hcontinuous := h.continuous.own honest hstep
  have hpc := h.continuous.pc
  cases CatchUp.moves_of_next hstep with
  | begin cfg result here =>
    refine h.move hcontinuous fun hwaiting _ => ?_
    rw [here] at hwaiting
    exact hwaiting
  | anchored size budget set here =>
    refine h.move hcontinuous fun _ hnone => ?_
    rw [last_unset hnone] at set
    cases set
  | unanchored size budget unset here =>
    refine h.move hcontinuous fun hwaiting _ => ?_
    rw [here] at hwaiting
    exact hwaiting
  | anchor size budget prior here =>
    rw [here] at hpc
    refine h.move hcontinuous fun hwaiting _ => ?_
    rw [here] at hwaiting
    exact ⟨hwaiting, rfl, hpc.2.1⟩
  | latest b response here =>
    cases response with
    | ok rows => exact honest.elim
    | error err =>
      exact h.stop rfl hcontinuous fun _ c reason after hw => by rw [here] at hw; cases hw
  | page c left offset e response here =>
    cases response with
    | ok rows => exact honest.elim
    | error err =>
      exact h.stop rfl hcontinuous fun _ c reason after hw => by rw [here] at hw; cases hw
  | storeLatest c env now here => exact h.store here hcontinuous
  | storePage c left offset rows pageKeys env now here =>
    obtain ⟨hlog, hhanded⟩ := store_kept wallet.id w.own env rows fun r =>
      storedPage (c.count r) left offset rows pageKeys now
    refine h.quiet hcontinuous (Log.Grows.refl _) hhanded hlog fun hwaiting _ _ => ?_
    rw [here] at hwaiting
    exact hwaiting.elim
  | commit c reason after here =>
    exact h.commit here fun hnone hclosed =>
      hunbroken hnone c reason after here (.inr ⟨rfl, hclosed⟩)
  | refresh c left here =>
    refine h.move hcontinuous fun hwaiting _ => ?_
    rw [here] at hwaiting
    exact hwaiting.elim
  | crash =>
    exact h.stop rfl hcontinuous fun hnone c reason after hw =>
      hunbroken hnone c reason after hw (.inl rfl)

theorem step {e : WorldEvent} (h : Following wallet lo w) (hs : CycleStep wallet w e w')
    (hunbroken : Unbroken wallet w e w') :
    Following wallet lo w' := by
  obtain ⟨hs, hnewest⟩ := hs
  have hcontinuous := h.continuous.step hs
  cases hs with
  | arrive source grows =>
    exact h.quiet hcontinuous grows (fun _ hraw => hraw) rfl fun hwaiting _ hle => hwaiting.le hle
  | reply r own asked step => exact h.reply asked step
  | elsewhere db step =>
    refine h.quiet hcontinuous (Log.Grows.refl _)
      (fun _ hraw => hraw) step.log fun hwaiting _ hle => ?_
    rw [hnewest rfl]
    exact hwaiting.le hle
  | own e own honest step => exact h.own honest hunbroken step

end Following

/-- Following starts after the newest trade stored. -/
theorem World.FirstStart.following {w : World tx} (h : w.FirstStart wallet) :
    ∃ lo, Following wallet lo w ∧
    ∀ source : Source tx, w.source.Grows source →
    ∀ i, NewerThan source (w.own.db.newestTrade wallet.id) i → lo ≤ i := by
  have hnone : w.own.db.firstAnchor wallet.id = none := by
    unfold Db.firstAnchor
    rw [h.log]
    rfl
  have hfollowing : ∀ lo, (w.view wallet).Followed lo (w.own.db.newestTrade wallet.id) →
      Following wallet lo w := by
    intro lo hlo
    refine ⟨h.toStart.continuous, ?_, fun _ => ?_⟩
    · rw [hnone]
      exact nofun
    · rw [h.pc]
      exact hlo
  cases hnewest : w.own.db.newestTrade wallet.id with
  | none =>
    refine ⟨0, hfollowing 0 ?_, fun _ _ i _ => Nat.zero_le i⟩
    rw [hnewest]
    exact nofun
  | some k =>
    obtain ⟨s, hs⟩ := h.known k hnewest
    refine ⟨s + 1, hfollowing (s + 1) fun k' hk' => ?_,
      fun source hgrows i hnewer => hnewer k s rfl (hs.grows hgrows)⟩
    obtain rfl := Option.some.inj (hnewest.symm.trans hk')
    exact ⟨s, hs, fun i t hlo hi => by omega⟩

/-! ## The theorem -/

theorem Following.since {start : Option String} {lo : Nat}
    {w : World tx} (h : Following wallet lo w)
    (hlo : ∀ i, NewerThan w.source start i → lo ≤ i) : FollowedSince wallet start w := by
  intro r anchor a i t hr hclosed hanchor ha ht hi hnewer
  obtain ⟨k₀, hfirst⟩ : ∃ k₀, w.own.db.firstAnchor wallet.id = some k₀ := by
    rw [← Option.isSome_iff_exists]
    exact List.findSome?_isSome_iff.mpr ⟨r, List.mem_of_getLast? hr,
      Option.isSome_iff_exists.mpr ⟨anchor, hanchor⟩⟩
  obtain ⟨f, hf, hfollowed⟩ := h.followed k₀ hfirst
  have hne : k₀ ≠ "" := View.at_ne_empty (v := w.view wallet) hf
  obtain ⟨k, hk, hreached⟩ := (h.continuous.log r hr).linked k₀ hfirst hne
  obtain rfl := Option.some.inj (hanchor.symm.trans hk)
  have hhanded : t.raw ∈ w.own.handed := by
    by_cases hif : i ≤ f
    · exact hfollowed i t (hlo i hnewer) (by omega) ht
    · exact hreached.spans hf ha i t (by omega) (by omega) ht
  exact h.continuous.accounted t.raw hhanded t.key t.identified

/-- In a run without a gap left behind, every trade newer than the newest one stored at its start is
stored or was quarantined, up to the anchor of any checkpoint that is not incomplete. -/
theorem first_cycle_continuity {w₀ w : World tx} {tr : List (WorldEvent × World tx)}
    (hstart : w₀.FirstStart wallet) (hrun : Run (CycleStep wallet) w₀ tr w)
    (hunbroken : Each (Unbroken wallet) w₀ tr) :
    FollowedSince wallet (w₀.own.db.newestTrade wallet.id) w ∧
      ∀ x ∈ tr, FollowedSince wallet (w₀.own.db.newestTrade wallet.id) x.2 := by
  obtain ⟨lo, hfollowing, hlo⟩ := hstart.following
  have hstep : ∀ (w : World tx) e w', Following wallet lo w ∧ w₀.source.Grows w.source →
      CycleStep wallet w e w' →
      Unbroken wallet w e w' → Following wallet lo w' ∧ w₀.source.Grows w'.source := by
    intro w e w' h hs hu
    refine ⟨h.1.step hs hu, List.IsPrefix.trans h.2 ?_⟩
    cases hs.1 with
    | arrive source grows => exact grows
    | reply => exact Log.Grows.refl _
    | elsewhere => exact Log.Grows.refl _
    | own => exact Log.Grows.refl _
  obtain ⟨hlast, htrace⟩ :=
    hrun.inv_each (fun w => Following wallet lo w ∧ w₀.source.Grows w.source) hstep hunbroken
    ⟨hfollowing, Log.Grows.refl _⟩
  exact ⟨hlast.1.since (hlo w.source hlast.2),
    fun x hx => (htrace x hx).1.since (hlo x.2.source (htrace x hx).2)⟩

/-! ## A first cycle that opens a window, and one that loses a trade -/

/-- A step that, without an anchor in any checkpoint, neither stops a cycle nor
writes one but of a window. -/
def World.opening (wallet : Wallet) (w : World tx) (e : WorldEvent) : Bool :=
  (w.own.db.firstAnchor wallet.id).isSome || match e, w.own.pc with
    | .own .crash, _ => false
    | .own .commit, .checkpoint c _ _ => c.incomplete
    | _, _ => true

theorem World.opening_unbroken {w w' : World tx} {e : WorldEvent} (h : w.opening wallet e = true) :
    Unbroken wallet w e w' := by
  intro hnone c reason after hw hevent
  unfold World.opening at h
  rw [hnone, hw] at h
  rcases hevent with rfl | ⟨rfl, hclosed⟩
  · cases h
  · have hopen : c.incomplete = true := h
    rw [hclosed] at hopen
    cases hopen

theorem World.play_step {w u : World tx} {e : WorldEvent} (h : w.play wallet [e] = some u) :
    CycleStep wallet w e u := by
  have hsingle : ∀ {w' : World tx}, World.play wallet [] w' = some u → w' = u :=
    fun h => Option.some.inj h
  cases e with
  | arrive => cases h
  | elsewhere => cases h
  | reply =>
    unfold World.play at h
    split at h
    · next r hasked =>
      obtain ⟨own, hown, h⟩ := Option.bind_eq_some_iff.mp h
      obtain rfl := hsingle h
      exact ⟨.reply w r own hasked hown, nofun⟩
    · cases h
  | own e =>
    have hown : ∀ own, e.honest → w.own.next tx wallet e = some own →
        World.play wallet [] { w with own := own } = some u →
        CycleStep wallet w (.own e) u := by
      intro own honest hown h
      obtain rfl := hsingle h
      exact ⟨.own w e own honest hown, nofun⟩
    cases e with
    | fetch response =>
      cases response with
      | ok rows => cases h
      | error err =>
        obtain ⟨own, hnext, h⟩ := Option.bind_eq_some_iff.mp h
        exact hown own trivial hnext h
    | _ =>
      obtain ⟨own, hnext, h⟩ := Option.bind_eq_some_iff.mp h
      exact hown own trivial hnext h

def World.playOpening (wallet : Wallet) : List WorldEvent → World tx → Option (World tx)
  | [], w => some w
  | e :: es, w =>
    if w.opening wallet e then (w.play wallet [e]).bind (World.playOpening wallet es) else none

theorem World.playOpening_run {es : List WorldEvent} :
    ∀ {w w' : World tx}, w.playOpening wallet es = some w' →
    ∃ tr, Run (CycleStep wallet) w tr w' ∧ Each (Unbroken wallet) w tr := by
  induction es with
  | nil =>
    intro w w' h
    obtain rfl := Option.some.inj h
    exact ⟨[], Run.nil, trivial⟩
  | cons e es ih =>
    intro w w' h
    unfold World.playOpening at h
    split at h
    · next hopening =>
      obtain ⟨u, hu, h⟩ := Option.bind_eq_some_iff.mp h
      obtain ⟨tr, hrun, heach⟩ := ih h
      have hstep : CycleStep wallet w e u := World.play_step hu
      exact ⟨(e, u) :: tr, (Run.single hstep).trans hrun, World.opening_unbroken hopening, heach⟩
    · cases h

namespace FirstCycle

open Outage

/-- The oldest trade was stored before the wallet was followed. -/
def stored : Db :=
  match ingestTradeRows Text.plain env true tracked.id [older.raw]
      { Db.empty with wallets := [tracked] } with
  | .ok r => r.db
  | .error _ => Db.empty

def start : World Text.plain := ⟨Outage.after, ⟨stored, .idle none, [], []⟩⟩

def tail : List WorldEvent := [begin, .own .select, .own .select, .reply, .own (.store env 0)]

def interrupted : List WorldEvent := tail ++ [.own .crash] ++ tail ++ [.own .commit]

def whole : List WorldEvent := tail ++ [.own .commit] ++ page ++ page ++ page

def empty : World Text.plain :=
  ⟨⟨[], .nil, List.nodup_nil⟩, ⟨{ Db.empty with wallets := [tracked] }, .idle none, [], []⟩⟩

/-- The first checkpoint finds nothing, the second sees one page of three trades. -/
def burst : Option (World Text.plain) :=
  (empty.play tracked (tail ++ [.own .commit])).bind fun w =>
    World.play tracked (tail ++ [.own .commit]) { w with source := Outage.after }

/-- Caught up with `newest`, without `missed`. -/
def lostMissed (w : World Text.plain) : Bool :=
  ((w.own.db.catchUps 1).getLast?.map fun r => (r.anchorId, r.catchUpIncomplete)) =
    some (some newest.key, false) &&
    !w.own.db.hasTrade missed.key && w.own.quarantined.isEmpty

/-- `missed` lies between `older` and `newest`. -/
theorem not_followed {w : World Text.plain} {start : Option String}
    (hsource : w.source = Outage.after) (hstart : ∀ k, start = some k → k = older.key)
    (hends : lostMissed w = true) :
    ¬ FollowedSince tracked start w := by
  unfold lostMissed at hends
  rw [Bool.and_eq_true, Bool.and_eq_true, decide_eq_true_eq,
    Bool.not_eq_true', List.isEmpty_iff] at hends
  obtain ⟨⟨hlast, hlost⟩, hquarantined⟩ := hends
  obtain ⟨r, hr, hends⟩ := Option.map_eq_some_iff.mp hlast
  obtain ⟨hanchor, hclosed⟩ := Prod.mk.inj hends
  intro hfollowed
  have hat : ∀ {t : SourceTrade Text.plain} {i : Nat}, Outage.after.entries[i]? = some t →
      w.source.At t.key i :=
    fun hi => ⟨_, hsource ▸ hi, rfl⟩
  have hmissed : w.source.entries[1]? = some missed := hsource ▸ rfl
  have hnewer : NewerThan w.source start 1 := by
    intro k s hk hs
    obtain rfl := hstart k hk
    rw [hs.unique (hat (i := 0) rfl)]
    decide
  rcases hfollowed r newest.key 2 1 missed hr hclosed hanchor (hat (i := 2) rfl) hmissed
    (by decide) hnewer with hstored | ⟨q, hq, -⟩
  · rw [hlost] at hstored
    cases hstored
  · rw [hquarantined] at hq
    exact List.not_mem_nil hq

theorem start_first : start.FirstStart tracked :=
  ⟨⟨rfl, by decide +kernel, rfl, rfl⟩, fun k hk =>
    ⟨0, older, rfl, Option.some.inj ((show _ = some older.key by decide +kernel).symm.trans hk)⟩⟩

theorem empty_first : empty.FirstStart tracked :=
  ⟨⟨rfl, rfl, rfl, rfl⟩, fun k hk => by cases hk⟩

theorem cycles_of_play {es : List WorldEvent} {w w' : World Text.plain}
    (h : w.play tracked es = some w') :
    (∃ tr, Run (CycleStep tracked) w tr w') ∧ w'.source = w.source := by
  obtain ⟨⟨tr, hrun⟩, hsource⟩ := World.play_run h
  refine ⟨⟨tr, ?_⟩, hsource⟩
  exact hrun.mono (fun _ => True) (fun _ _ _ _ _ => trivial)
    (fun _ _ _ _ hs => ⟨hs.1, fun he => absurd he hs.2⟩) trivial

end FirstCycle

open FirstCycle in
/-- A cycle that stops between its newest page and its first checkpoint; and a history that outgrows
a page after a first checkpoint without an anchor. -/
theorem first_cycle_loses_trade :
    (∃ w tr, FirstCycle.start.FirstStart Outage.tracked ∧
      Run (CycleStep Outage.tracked) FirstCycle.start tr w ∧
      ¬ FollowedSince Outage.tracked (FirstCycle.start.own.db.newestTrade 1) w) ∧
    ∃ w tr, FirstCycle.empty.FirstStart Outage.tracked ∧
      Run (CycleStep Outage.tracked) FirstCycle.empty tr w ∧
      ¬ FollowedSince Outage.tracked (FirstCycle.empty.own.db.newestTrade 1) w := by
  constructor
  · obtain ⟨w, hplay⟩ := Option.isSome_iff_exists.mp
      (show (FirstCycle.start.play Outage.tracked interrupted).isSome = true by
      decide +kernel)
    have hends : (FirstCycle.start.play Outage.tracked interrupted).any lostMissed = true := by
      decide +kernel
    rw [hplay] at hends
    obtain ⟨⟨tr, hrun⟩, hsource⟩ := cycles_of_play hplay
    refine ⟨w, tr, start_first, hrun, not_followed hsource (fun k hk => ?_) hends⟩
    have hnewest : FirstCycle.start.own.db.newestTrade 1 = some Outage.older.key := by
      decide +kernel
    exact Option.some.inj (hk.symm.trans hnewest)
  · obtain ⟨w, hfinal⟩ := Option.isSome_iff_exists.mp (show burst.isSome = true by decide +kernel)
    have hends : burst.any lostMissed = true := by decide +kernel
    rw [hfinal] at hends
    obtain ⟨w₁, hfirst, hrest⟩ := Option.bind_eq_some_iff.mp hfinal
    obtain ⟨⟨tr₁, hrun₁⟩, hsource₁⟩ := cycles_of_play hfirst
    obtain ⟨⟨tr₂, hrun₂⟩, hsource₂⟩ := cycles_of_play hrest
    have hgrows : w₁.source.Grows Outage.after := by
      rw [hsource₁]
      exact List.nil_prefix
    have harrive : CycleStep Outage.tracked w₁ .arrive { w₁ with source := Outage.after } :=
      ⟨.arrive w₁ _ hgrows, nofun⟩
    exact ⟨w, _, empty_first, (hrun₁.snoc _ _ harrive).trans hrun₂,
      not_followed hsource₂ (fun k hk => by cases hk) hends⟩

open FirstCycle in
theorem first_cycle_continuity_whole :
    ∃ w tr, Run (CycleStep Outage.tracked) FirstCycle.start tr w ∧
    ((w.own.db.catchUps 1).getLast?.map CatchUpRecord.catchUpIncomplete) = some false ∧
    FollowedSince Outage.tracked (FirstCycle.start.own.db.newestTrade 1) w := by
  obtain ⟨w, hplay⟩ := Option.isSome_iff_exists.mp
    (show (FirstCycle.start.playOpening Outage.tracked whole).isSome = true by
    decide +kernel)
  have hends : (FirstCycle.start.playOpening Outage.tracked whole).any (fun w =>
      ((w.own.db.catchUps 1).getLast?.map CatchUpRecord.catchUpIncomplete) = some false) = true := by
        decide +kernel
  rw [hplay, Option.any_some, decide_eq_true_eq] at hends
  obtain ⟨tr, hrun, hunbroken⟩ := World.playOpening_run hplay
  exact ⟨w, tr, hrun, hends, (first_cycle_continuity start_first hrun hunbroken).1⟩

end Polycopy
