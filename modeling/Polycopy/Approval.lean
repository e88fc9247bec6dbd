import Polycopy.Books.Lifecycle

/-!
# Copying and human decisions

`approved_at` is the copy-enabled boundary, overwritten by each approval.  A
fill is traced back through the run: the commit that wrote it, the call of
`execute_signal` that decided it, and the transition that set the boundary it
was decided under, with the wallet approved all the way between.

`execute_signal` reads the wallet once, before its two awaits.  With calls that
are atomic no trade of a time without approval is ever filled; with calls as
they are, a `disable` still lets the one call under way commit, and no other.
-/

namespace Polycopy

/-! ## What a step does to a wallet -/

def InState (state : ApprovalState) (walletId : Nat) (s : Sys) : Prop :=
  ∃ w, s.db.wallet walletId = some w ∧ w.approvalState = state

/-- Approved, with this boundary. -/
def ApprovedSince (b : Time) (walletId : Nat) (s : Sys) : Prop :=
  ∃ w, s.db.wallet walletId = some w ∧ w.approvalState = .approved ∧ w.approvedAt = some b

inductive WalletStep (walletId : Nat) (s : Sys) (e : Event) (t : Sys) : Prop
  | same (row : t.db.wallet walletId = s.db.wallet walletId)
  | added (w : Wallet) (before : s.db.wallet walletId = none) (row : t.db.wallet walletId = some w)
      (state : w.approvalState = .discovered)
  | moved (w : Wallet) (action : TransitionAction) (event : e = .transition walletId action)
      (clock : t.clock = s.clock) (before : s.db.wallet walletId = some w)
      (source : w.approvalState = (allowedTransitions action).1)
      (row : t.db.wallet walletId = some (w.moveTo (allowedTransitions action).2 s.clock))
  | verdict (w : Wallet) (target : ApprovalState) (before : s.db.wallet walletId = some w)
      (source : w.approvalState = .discovered ∨ w.approvalState = .pendingReview)
      (auto : target = .discovered ∨ target = .pendingReview)
      (row : t.db.wallet walletId = some (w.moveTo target s.clock))

theorem find_moveTo (walletId id : Nat) (target : ApprovalState)
    (now : Time) (wallets : List Wallet) :
    Keyed.find Wallet.id walletId (Keyed.update Wallet.id id (Wallet.moveTo target now) wallets) =
      (Keyed.find Wallet.id walletId wallets).map fun w =>
      if w.id = id then w.moveTo target now else w := by
  have hid : ∀ w : Wallet, (w.moveTo target now).id = w.id := fun _ => rfl
  exact Keyed.find_update Wallet.id hid wallets

theorem moved_row {db db' : Db} {id : Nat} {target : ApprovalState} {now : Time}
    {w : Wallet} (walletId : Nat) (hw : db.wallet id = some w)
    (h : db'.wallets = Keyed.update Wallet.id id (Wallet.moveTo target now) db.wallets) :
    (walletId = id ∧ db'.wallet walletId = some (w.moveTo target now)) ∨
      db'.wallet walletId = db.wallet walletId := by
  unfold Db.wallet at *
  rw [h, find_moveTo]
  by_cases hid : walletId = id
  · left
    have hwid := (Keyed.find_some Wallet.id hw).2
    rw [hid, hw, Option.map_some, if_pos hwid]
    exact ⟨rfl, rfl⟩
  · right
    cases hf : Keyed.find Wallet.id walletId db.wallets with
    | none => rfl
    | some w' =>
      have hne : ¬ w'.id = id := fun he => hid ((Keyed.find_some Wallet.id hf).2.symm.trans he)
      rw [Option.map_some, if_neg hne]

theorem Step.wallet {pw : Py.DecPow} {tx : Py.Text} {s t : Sys} {e : Event} (h : Step pw tx s e t)
    (walletId : Nat) : WalletStep walletId s e t := by
  have unchanged : t.db.wallets = s.db.wallets → WalletStep walletId s e t := by
    intro hw
    refine .same ?_
    unfold Db.wallet
    rw [hw]
  cases h with
  | tick d h => exact unchanged rfl
  | crash cfg => exact unchanged rfl
  | bot _ _ h => exact unchanged h.frame.wallets
  | elsewhere _ db h lock =>
    cases h with
    | ingestTrade | ingestMarket | resolve | backfill | throttle | overview => exact unchanged rfl
    | settings p l =>
      refine unchanged ?_
      unfold updateBankrollSettings
      rw [getOrCreate_withAccount]
      dsimp only
      split <;> rfl
    | addWallet _ address label h =>
      obtain rfl := addWallet_ok h
      cases hf : s.db.wallet walletId with
      | some w =>
        refine .same ?_
        rw [hf]
        show Keyed.find Wallet.id walletId (s.db.wallets ++ _) = some w
        rw [Keyed.find_append]
        change Keyed.find Wallet.id walletId s.db.wallets = some w at hf
        rw [hf]
        rfl
      | none =>
        have hrow : ∀ w : Wallet, Keyed.find Wallet.id walletId (s.db.wallets ++ [w]) =
            if w.id = walletId then some w else none := by
          intro w
          change Keyed.find Wallet.id walletId s.db.wallets = none at hf
          rw [Keyed.find_append, hf, Keyed.find_cons]
          rfl
        by_cases hid : Keyed.fresh Wallet.id s.db.wallets = walletId
        · exact .added _ hf ((hrow _).trans (if_pos hid)) rfl
        · exact .same (((hrow _).trans (if_neg hid)).trans hf.symm)
    | transition _ id action h =>
      obtain ⟨w, queue, hw, hsource, hdb⟩ := transitionWallet_ok h
      rcases moved_row walletId hw (congrArg Db.wallets hdb) with ⟨rfl, hrow⟩ | hrow
      · exact .moved w action rfl rfl hw hsource hrow
      · exact .same hrow
    | verdict _ verdict id h =>
      obtain hdb | ⟨w, target, queue, hw, hsource, hauto, hdb⟩ := applyVerdict_ok h
      · exact unchanged (congrArg Db.wallets hdb)
      · rcases moved_row walletId hw (congrArg Db.wallets hdb) with ⟨rfl, hrow⟩ | hrow
        · exact .verdict w target hw hsource hauto hrow
        · exact .same hrow

/-- An approval is a transition, and sets the boundary to its own time. -/
theorem ApprovedSince.enabled {pw : Py.DecPow} {tx : Py.Text} {b : Time}
    {walletId : Nat} {s t : Sys} {e : Event} (h : Step pw tx s e t)
    (hs : ¬ ApprovedSince b walletId s) (ht : ApprovedSince b walletId t) :
    ∃ action, e = .transition walletId action ∧
    (allowedTransitions action).2 = .approved ∧ b = t.clock := by
  obtain ⟨w', hw', hstate, hb⟩ := ht
  cases h.wallet walletId with
  | same row => exact absurd ⟨w', row.symm.trans hw', hstate, hb⟩ hs
  | added w before row state =>
    obtain rfl := Option.some.inj (row.symm.trans hw')
    rw [state] at hstate
    cases hstate
  | moved w action event clock before source row =>
    obtain rfl := Option.some.inj (row.symm.trans hw')
    have htarget : (allowedTransitions action).2 = .approved := hstate
    refine ⟨action, event, htarget, ?_⟩
    unfold Wallet.moveTo at hb
    rw [if_pos htarget] at hb
    rw [clock]
    exact (Option.some.inj hb).symm
  | verdict w target before source auto row =>
    obtain rfl := Option.some.inj (row.symm.trans hw')
    have htarget : target = .approved := hstate
    rcases auto with rfl | rfl <;> cases htarget

/-- Only a transition takes an approval away. -/
theorem ApprovedSince.step {pw : Py.DecPow} {tx : Py.Text} {b : Time}
    {walletId : Nat} {s t : Sys} {e : Event} (hs : ApprovedSince b walletId s)
    (h : Step pw tx s e t) (he : ∀ action, e ≠ .transition walletId action) :
    ApprovedSince b walletId t := by
  obtain ⟨w', hw', hstate, hb⟩ := hs
  cases h.wallet walletId with
  | same row => exact ⟨w', row.trans hw', hstate, hb⟩
  | added w before row state => rw [before] at hw'; cases hw'
  | moved w action event clock before source row => exact absurd event (he action)
  | verdict w target before source auto row =>
    obtain rfl := Option.some.inj (before.symm.trans hw')
    rcases source with hsource | hsource <;>
    · rw [hsource] at hstate
      cases hstate

/-- A disabled wallet stays disabled until it is re-enabled. -/
theorem InState.disabled_step {pw : Py.DecPow} {tx : Py.Text}
    {walletId : Nat} {s t : Sys} {e : Event} (hs : InState .disabled walletId s)
    (h : Step pw tx s e t) (he : e ≠ .transition walletId .reenable) :
    InState .disabled walletId t := by
  obtain ⟨w', hw', hstate⟩ := hs
  cases h.wallet walletId with
  | same row => exact ⟨w', row.trans hw', hstate⟩
  | added w before row state => rw [before] at hw'; cases hw'
  | moved w action event clock before source row =>
    obtain rfl := Option.some.inj (before.symm.trans hw')
    rw [hstate] at source
    cases action with
    | reenable => exact absurd event he
    | approve | reject | disable => cases source
  | verdict w target before source auto row =>
    obtain rfl := Option.some.inj (before.symm.trans hw')
    rcases source with hsource | hsource <;>
    · rw [hsource] at hstate
      cases hstate

/-- What a `disable` leaves. -/
theorem disable_disables {pw : Py.DecPow} {tx : Py.Text} {walletId : Nat} {s t : Sys}
    (h : Step pw tx s (.transition walletId .disable) t) : InState .disabled walletId t := by
  cases h with
  | bot _ _ h => cases h
  | elsewhere _ db h lock =>
    cases h with
    | transition _ _ _ h =>
      obtain ⟨w, queue, hw, -, rfl⟩ := transitionWallet_ok h
      have hid : w.id = walletId := (Keyed.find_some Wallet.id hw).2
      refine ⟨w.moveTo .disabled s.clock, ?_, rfl⟩
      show Keyed.find Wallet.id walletId (Keyed.update Wallet.id walletId _ s.db.wallets) = _
      change Keyed.find Wallet.id walletId s.db.wallets = some w at hw
      rw [find_moveTo, hw, Option.map_some, if_pos hid]
      rfl

/-! ## Time, and where signals come from -/

theorem Bot.clock {pw : Py.DecPow} {s t : Sys} {e : Event}
    (h : Bot pw s e t) : t.clock = s.clock := by
  cases h <;> rfl

theorem Step.clock {pw : Py.DecPow} {tx : Py.Text} {s t : Sys} {e : Event} (h : Step pw tx s e t) :
    s.clock ≤ t.clock := by
  cases h with
  | tick d h => exact le_add_of_nonneg_right h
  | elsewhere _ db h lock => exact le_refl _
  | bot _ _ h => exact h.clock.ge
  | crash cfg => exact le_refl _

/-- What a signal takes over from its trade, as far as approval goes. -/
def Trade.origin (t : Trade) : String × Nat × Time × Time :=
  (t.polymarketTradeId, t.walletId, t.tradedAt, t.ingestedAt)

def Signal.origin (s : Signal) : String × Nat × Time × Time :=
  (s.sourceTradeId, s.walletId, s.t0TradedAt, s.t1DetectedAt)

theorem detectSignals_origins (rows : List Trade) :
    ∀ db, (detectSignals db rows).signals.map Signal.origin =
    db.signals.map Signal.origin ++ rows.map Trade.origin := by
  induction rows with
  | nil => intro db; exact (List.append_nil _).symm
  | cons t rest ih =>
    intro db
    refine (ih (addSignal db t)).trans ?_
    show (db.signals ++ [_]).map Signal.origin ++ _ = _
    rw [List.map_append, List.append_assoc]
    rfl

theorem Bot.origins {pw : Py.DecPow} {s t : Sys} {e : Event} (h : Bot pw s e t) :
    ∀ x ∈ t.db.signals.map Signal.origin, x ∈ s.db.signals.map Signal.origin ∨
    x ∈ s.db.trades.map Trade.origin := by
  have ends : ∀ (status : SignalStatus) (id : Nat),
      (setStatus status id s.view.signals).map Signal.origin = s.db.signals.map Signal.origin := by
    intro status id
    rw [setStatus_map Signal.origin _ _ fun _ => rfl]
    exact view_signals Signal.origin (fun _ _ => rfl) s.session s.db
  cases h with
  | detect rows pc paper query =>
    intro x hx
    rw [show (s.commit (detectSignals s.db rows) (.settling s.clock)).db =
      detectSignals s.db rows from rfl,
      detectSignals_origins] at hx
    rcases List.mem_append.mp hx with hx | hx
    · exact Or.inl hx
    · obtain ⟨tr, htr, rfl⟩ := List.mem_map.mp hx
      exact Or.inr (List.mem_map_of_mem (List.mem_of_mem_filter (query.mem htr)))
  | settle startedAt rows pc query =>
    intro x hx
    left
    rw [show (s.commit (settlePaperPositions s.cfg startedAt s.db rows) .selecting).db =
      settlePaperPositions s.cfg startedAt s.db rows from rfl,
      (settlePaperPositions_orders s.cfg startedAt rows s.db).2] at hx
    exact hx
  | skip id rest deferred sig reason db pc ready gates =>
    intro x hx
    left
    have hsig := (gates_effects (executeGates_skip gates)).signals
    change x ∈ (setStatus .skipped sig.id db.signals).map Signal.origin at hx
    rw [hsig, ends] at hx
    exact hx
  | bookSkip | feeSkip =>
    intro x hx
    left
    exact ends _ _ ▸ hx
  | feeFill b f fill snapshot feeInfo fee marketFee pc response =>
    intro x hx
    left
    change x ∈ (commitFill _ _ _ _ _ _ _ _ _).signals.map Signal.origin at hx
    rw [commitFill_eq] at hx
    exact ends _ _ ▸ hx
  | finishDeferred =>
    intro x hx
    left
    exact view_signals Signal.origin (fun _ _ => rfl) s.session s.db ▸ hx
  | sweep pc =>
    intro x hx
    left
    change x ∈ (if _ then _ else _ : Db).signals.map Signal.origin at hx
    split at hx
    · next hpos =>
      rcases sweepProfitIfDue_cases s.cfg s.view with h0 | ⟨limit, hp, hl, hpile, hfree, -, heq⟩
      · rw [h0] at hpos; exact absurd hpos (lt_irrefl 0)
      · rw [heq] at hx
        exact view_signals Signal.origin (fun _ _ => rfl) s.session s.db ▸ hx
    · exact hx
  | select | passOver | stop | defer | request | bookFill | raisedGates | raisedBook | raisedFee
  | finish => exact fun x hx => Or.inl hx

/-- Every signal is of a stored trade, and every trade has been seen by now. -/
structure Sourced (s : Sys) : Prop where
  trade : ∀ x ∈ s.db.signals.map Signal.origin, x ∈ s.db.trades.map Trade.origin
  seen : ∀ t ∈ s.db.trades, t.ingestedAt ≤ s.clock

theorem Step.trades {pw : Py.DecPow} {tx : Py.Text} {s t : Sys} {e : Event} (h : Step pw tx s e t) :
    ∀ tr ∈ s.db.trades, tr ∈ t.db.trades := by
  cases h with
  | tick d h => exact fun _ h => h
  | crash cfg => exact fun _ h => h
  | bot _ _ h => rw [h.frame.trades]; exact fun _ h => h
  | elsewhere _ db h lock =>
    intro tr htr
    show tr ∈ db.trades
    rcases h.trades with ht | ⟨t, ht, -, -⟩
    · rw [ht]; exact htr
    · rw [ht]; exact List.mem_append_left _ htr

theorem Sourced.step {pw : Py.DecPow} {tx : Py.Text} {s t : Sys} {e : Event} (hs : Sourced s)
    (h : Step pw tx s e t) : Sourced t := by
  have hgrow : ∀ x ∈ s.db.trades.map Trade.origin, x ∈ t.db.trades.map Trade.origin := by
    intro x hx
    obtain ⟨tr, htr, rfl⟩ := List.mem_map.mp hx
    exact List.mem_map_of_mem (h.trades tr htr)
  have hclock := h.clock
  cases h with
  | tick d h => exact ⟨hs.trade, fun tr htr => (hs.seen tr htr).trans hclock⟩
  | crash cfg => exact ⟨hs.trade, hs.seen⟩
  | bot _ _ h =>
    refine ⟨fun x hx => ?_, fun tr htr => ?_⟩
    · rcases h.origins x hx with hx | hx
      · exact hgrow x (hs.trade x hx)
      · exact hgrow x hx
    · rw [h.frame.trades] at htr
      exact (hs.seen tr htr).trans hclock
  | elsewhere _ db h lock =>
    refine ⟨fun x hx => ?_, fun tr htr => ?_⟩
    · change x ∈ db.signals.map Signal.origin at hx
      rw [h.same.signals] at hx
      exact hgrow x (hs.trade x hx)
    · change tr ∈ db.trades at htr
      show tr.ingestedAt ≤ s.clock
      rcases h.trades with ht | ⟨t', ht, -, hseen⟩
      · rw [ht] at htr
        exact hs.seen tr htr
      · rw [ht] at htr
        rcases List.mem_append.mp htr with htr | htr
        · exact hs.seen tr htr
        · obtain rfl := List.mem_singleton.mp htr
          exact hseen

/-! ## Where a fill comes from -/

/-- What a fill takes over from the call that decided it. -/
structure FillOf (o : PaperOrder) (f : Flight) : Prop where
  signalId : o.signalId = f.signal.id
  walletId : o.walletId = f.signal.walletId
  key : o.idempotencyKey = idempotencyKey f.signal
  decided : o.t2DecidedAt = f.now

theorem Step.fill_written {pw : Py.DecPow} {tx : Py.Text} {s t : Sys} {e : Event}
    {o : PaperOrder} (ok : SysOk s) (h : Step pw tx s e t) (hnew : o ∉ s.db.paperOrders)
    (ho : o ∈ t.db.paperOrders) (hfill : o.isFill = true) :
    e = .fee ∧ ∃ f, s.pc.flight = some f ∧ FillOf o f := by
  cases h.kind ok with
  | filled b f fill snapshot fee marketFee hf =>
    have hpc : s.pc.flight = some f := by rw [hf.pc]; rfl
    rw [hf.after] at ho
    change o ∈ (commitFill _ _ _ _ _ _ _ _ _).paperOrders at ho
    rw [commitFill_eq] at ho
    rcases List.mem_append.mp ho with ho | ho
    · exact absurd ho hnew
    · obtain rfl := List.mem_singleton.mp ho
      exact ⟨hf.event, f, hpc, rfl, rfl, rfl, rfl⟩
  | settled startedAt rows event query after =>
    subst after
    exact absurd ((settlePaperPositions_orders s.cfg startedAt rows s.db).1 ▸ ho) hnew
  | swept limit amount event limit_pos amount_pos le_pile le_free after =>
    subst after
    exact absurd ho hnew
  | other event positions fills money => exact absurd (fills o ho hfill) hnew

/-! ## Atomic calls -/

/-- No transition commits while a call of `execute_signal` is under way. -/
def AtomicStep (pw : Py.DecPow) (tx : Py.Text) (s : Sys) (e : Event) (t : Sys) : Prop :=
  Step pw tx s e t ∧ ∀ walletId action, e = .transition walletId action → s.pc.flight = none

theorem atomic_sysRun {pw : Py.DecPow} {tx : Py.Text} {cfg : Settings}
    {t0 : Time} {tr : List (Event × Sys)} {s : Sys}
    (h : Runs.Run (AtomicStep pw tx) (Sys.init cfg t0) tr s) : SysRun pw tx cfg t0 tr s :=
  h.mono (fun _ => True) (fun _ _ _ _ _ => trivial) (fun _ _ _ _ hs => hs.1) trivial

theorem SysRun.sourced {pw : Py.DecPow} {tx : Py.Text} {cfg : Settings}
    {t0 : Time} {tr : List (Event × Sys)} {s : Sys}
    (h : SysRun pw tx cfg t0 tr s) : Sourced s :=
  h.inv Sourced (fun _ _ _ hs hstep => hs.step hstep)
    ⟨fun _ hx => (List.not_mem_nil hx).elim, fun _ hx => (List.not_mem_nil hx).elim⟩

theorem approved_in_flight {pw : Py.DecPow} {tx : Py.Text} {b : Time}
    {walletId : Nat} {f : Flight} {s t : Sys} {tr : List (Event × Sys)}
    (h : Runs.Run (AtomicStep pw tx) s tr t) (hair : ∀ x ∈ tr, x.2.pc.flight = some f)
    (hf : s.pc.flight = some f) (hs : ApprovedSince b walletId s) :
    (∀ x ∈ tr, ApprovedSince b walletId x.2) ∧ ApprovedSince b walletId t := by
  have hstep : ∀ s e t, s.pc.flight = some f ∧ ApprovedSince b walletId s →
      AtomicStep pw tx s e t ∧ t.pc.flight = some f →
      t.pc.flight = some f ∧ ApprovedSince b walletId t := by
    rintro s e t ⟨hf, hs⟩ ⟨⟨hstep, hatomic⟩, hf'⟩
    refine ⟨hf', hs.step hstep fun action he => ?_⟩
    rw [hatomic _ _ he] at hf
    cases hf
  have hr := h.restrict (fun s => s.pc.flight = some f) hair
  exact ⟨fun x hx => (hr.inv_trace _ hstep ⟨hf, hs⟩ x hx).2, (hr.inv _ hstep ⟨hf, hs⟩).2⟩

/-- The life of a fill in a trace, by the places of three entries: the transition that set the
boundary `b`, the call that decided, and its commit. -/
structure Copied (tr : List (Event × Sys)) (o : PaperOrder) (t : Trade) (b : Time)
    (enabled decided committed : Nat) : Prop where
  enabled_at : ∃ action v, tr[enabled]? = some (.transition o.walletId action, v) ∧
    (allowedTransitions action).2 = .approved ∧ v.clock = b
  decided_at : ∃ id v, tr[decided]? = some (.begin id, v) ∧
    o.t2DecidedAt = v.clock ∧ t.ingestedAt ≤ v.clock
  committed_at : ∃ v, tr[committed]? = some (.fee, v) ∧ o ∈ v.db.paperOrders
  ordered : enabled < decided ∧ decided < committed
  approved : ∀ k x, enabled ≤ k → k ≤ committed → tr[k]? = some x → ApprovedSince b o.walletId x.2
  source : o.idempotencyKey = "paper:" ++ t.polymarketTradeId ∧ o.walletId = t.walletId
  traded : b ≤ t.tradedAt
  ingested : b ≤ t.ingestedAt

theorem getElem?_split {α : Type} {l pre : List α} (post : List α)
    {x : α} (h : l = pre ++ x :: post) :
    l[pre.length]? = some x := by
  rw [h, List.getElem?_append_right (le_refl _), Nat.sub_self]
  rfl

theorem mem_window {α : Type} {l pre win post : List α} {x : α} {k : Nat}
    (h : l = pre ++ (win ++ post)) (hk : pre.length ≤ k) (hk' : k < pre.length + win.length)
    (hx : l[k]? = some x) : x ∈ win := by
  rw [h, List.getElem?_append_right hk, List.getElem?_append_left (by omega)] at hx
  exact List.mem_of_getElem? hx

/-- Every fill has such a life. -/
theorem fill_copied {pw : Py.DecPow} {tx : Py.Text} {cfg : Settings}
    {t0 : Time} {tr : List (Event × Sys)} {s : Sys} {o : PaperOrder}
    (h : Runs.Run (AtomicStep pw tx) (Sys.init cfg t0) tr s) (ho : o ∈ s.db.paperOrders)
    (hfill : o.isFill = true) :
    ∃ t ∈ s.db.trades, ∃ b enabled decided committed,
    Copied tr o t b enabled decided committed := by
  -- back to the commit, from there to the gates, from there to the approval
  obtain ⟨pre₁, e₁, c, post₁, s₁, htr₁, hpre₁, hs₁, hpost₁, hnew, hc, -⟩ :=
    h.rise (fun s => o ∈ s.db.paperOrders) List.not_mem_nil ho
  obtain ⟨rfl, f, hf, hof⟩ := hs₁.1.fill_written (atomic_sysRun hpre₁).ok hnew hc hfill
  obtain ⟨pre₂, e₂, d, wait, s₂, htr₂, hpre₂, hs₂, hwait, hnf, hd, hair⟩ :=
    hpre₁.rise (fun s => s.pc.flight = some f) (by intro h; cases h) hf
  obtain ⟨id, hbegun⟩ := (hs₂.1.flight hd).resolve_left hnf
  obtain rfl := hbegun.event
  obtain ⟨w, b, hw, hstate, hb, htraded, hseen⟩ := copyEnabled_iff.mp hbegun.requested.approved
  have happ₂ : ApprovedSince b f.signal.walletId s₂ := ⟨w, hw, hstate, hb⟩
  obtain ⟨pre₃, e₃, v, mid, s₃, htr₃, hpre₃, hs₃, hmid, hn₃, hv, happmid⟩ :=
    hpre₂.rise (ApprovedSince b f.signal.walletId) (by rintro ⟨w, h, -⟩; cases h) happ₂
  obtain ⟨action, rfl, htarget, hbv⟩ := ApprovedSince.enabled hs₃.1 hn₃ hv
  -- approved from there to the commit
  have happd : ApprovedSince b f.signal.walletId d := by
    refine ⟨w, ?_, hstate, hb⟩
    rw [hbegun.same.1]
    exact hw
  obtain ⟨happwait, happ₁⟩ := approved_in_flight hwait hair hd happd
  have happc := happ₁.step hs₁.1 fun action he => by cases he
  -- the trade
  have hsig : f.signal.origin ∈ s₂.db.signals.map Signal.origin :=
    view_signals Signal.origin (fun _ _ => rfl) s₂.session s₂.db ▸
      List.mem_map_of_mem (Keyed.find_some Signal.id hbegun.ready.row).1
  have hsourced := (atomic_sysRun hpre₂).sourced
  obtain ⟨t, ht, horigin⟩ := List.mem_map.mp (hsourced.trade _ hsig)
  obtain ⟨hkey, horigin⟩ := Prod.mk.inj horigin
  obtain ⟨hwallet, horigin⟩ := Prod.mk.inj horigin
  obtain ⟨htr0, htr1⟩ := Prod.mk.inj horigin
  have hrest := (((Runs.Run.single hs₂).trans hwait).trans (Runs.Run.single hs₁)).trans hpost₁
  have hts := hrest.inv (fun s => t ∈ s.db.trades) (fun _ _ _ hm hstep => hstep.1.trades t hm) ht
  have hl₁ := congrArg List.length htr₂
  have hl₂ := congrArg List.length htr₃
  simp only [List.length_append, List.length_cons] at hl₁ hl₂
  refine ⟨t, hts, b, pre₃.length, pre₂.length, pre₁.length, ?_, ?_, ?_, ?_, ?_, ?_, ?_, ?_⟩
  · refine ⟨action, v, ?_, htarget, hbv.symm⟩
    rw [hof.walletId]
    refine getElem?_split (mid ++ (.begin id, d) :: (wait ++ (.fee, c) :: post₁)) ?_
    rw [htr₁, htr₂, htr₃]
    simp only [List.append_assoc, List.cons_append]
  · refine ⟨id, d, ?_, ?_, ?_⟩
    · refine getElem?_split (wait ++ (.fee, c) :: post₁) ?_
      rw [htr₁, htr₂]
      simp only [List.append_assoc, List.cons_append]
    · rw [hof.decided, hbegun.now, hbegun.same.2]
    · rw [hbegun.same.2]
      exact hsourced.seen t ht
  · exact ⟨c, getElem?_split post₁ htr₁, hc⟩
  · omega
  · intro k x hk hk' hx
    rw [hof.walletId]
    have hwin : tr = pre₃ ++
        (((.transition f.signal.walletId action, v) :: mid ++ (.begin id, d) :: wait ++
        [(.fee, c)]) ++ post₁) := by
      rw [htr₁, htr₂, htr₃]
      simp only [List.append_assoc, List.cons_append, List.nil_append]
    have hmem := mem_window hwin hk
      (by simp only [List.length_append, List.length_cons, List.length_nil]; omega) hx
    simp only [List.mem_append, List.mem_cons, List.not_mem_nil, or_false] at hmem
    rcases hmem with ((rfl | hx) | rfl | hx) | rfl
    · exact hv
    · exact happmid x hx
    · exact happd
    · exact happwait x hx
    · exact happc
  · refine ⟨?_, hof.walletId.trans hwallet.symm⟩
    rw [hof.key]
    exact congrArg ("paper:" ++ ·) hkey.symm
  · exact htraded.trans htr0.ge
  · exact hseen.trans htr1.ge

theorem clock_le {pw : Py.DecPow} {tx : Py.Text} {cfg : Settings} {t0 : Time}
    {tr : List (Event × Sys)} {s : Sys} (h : Runs.Run (AtomicStep pw tx) (Sys.init cfg t0) tr s)
    {i j : Nat} {x y : Event × Sys} (hij : i ≤ j)
    (hx : tr[i]? = some x) (hy : tr[j]? = some y) : x.2.clock ≤ y.2.clock := by
  obtain ⟨hp, -⟩ :=
    h.pairwise (fun s t => s.clock ≤ t.clock) (fun _ => le_refl _) (fun _ _ _ => le_trans)
    fun _ _ _ hs => hs.1.clock
  obtain ⟨hi, rfl⟩ := List.getElem?_eq_some_iff.mp hx
  obtain ⟨hj, rfl⟩ := List.getElem?_eq_some_iff.mp hy
  rcases Nat.lt_or_eq_of_le hij with hlt | rfl
  · exact List.pairwise_iff_getElem.mp hp i j hi hj hlt
  · exact le_refl _

theorem ApprovedSince.inState {b : Time} {walletId : Nat} {s : Sys}
    (h : ApprovedSince b walletId s) :
    InState .approved walletId s := by
  obtain ⟨w, hw, hstate, -⟩ := h
  exact ⟨w, hw, hstate⟩

theorem InState.inj {state state' : ApprovalState} {walletId : Nat} {s : Sys}
    (h : InState state walletId s) (h' : InState state' walletId s) : state = state' := by
  obtain ⟨w, hw, rfl⟩ := h
  obtain ⟨w', hw', rfl⟩ := h'
  rw [Option.some.inj (hw.symm.trans hw')]

/-- The time does not lie in the disabled interval from entry `i` to entry `j`. -/
def Outside (tr : List (Event × Sys)) (i j : Nat) (time : Time) : Prop :=
  ∀ x y, tr[i]? = some x → tr[j]? = some y → time ≤ x.2.clock ∨ y.2.clock ≤ time

def DisabledFrom (tr : List (Event × Sys)) (walletId i j : Nat) : Prop :=
  i < j ∧ ∀ k x, i ≤ k → k < j → tr[k]? = some x → InState .disabled walletId x.2

/-- With atomic calls every fill was decided under a boundary that a transition set, that its trade
does not precede, and under which the wallet stayed approved until the fill was committed.  So the
trade is no older than the first approval and was not seen in a disabled interval; nor does it
date from one, unless the interval begins after the copy and the trade is dated after it too. -/
theorem copied_only_while_approved (pw : Py.DecPow) (tx : Py.Text) (cfg : Settings) (t0 : Time)
    (tr : List (Event × Sys)) (s : Sys) (h : Runs.Run (AtomicStep pw tx) (Sys.init cfg t0) tr s) :
    ∀ o ∈ s.db.paperOrders, o.isFill = true → ∃ t ∈ s.db.trades, ∃ b enabled decided committed,
      Copied tr o t b enabled decided committed ∧
      (∀ (j : Nat) (y : Event × Sys), tr[j]? = some y →
        (∀ (i : Nat) (x : Event × Sys), i < j → tr[i]? = some x →
          ¬ InState .approved o.walletId x.2) →
        y.2.clock ≤ t.tradedAt ∧ y.2.clock ≤ t.ingestedAt) ∧
      ∀ i j, DisabledFrom tr o.walletId i j →
        Outside tr i j t.ingestedAt ∧ (i ≤ committed ∨ t.tradedAt ≤ o.t2DecidedAt →
          Outside tr i j t.tradedAt) := by
  intro o ho hfill
  obtain ⟨t, ht, b, enabled, decided, committed, hcopy⟩ := fill_copied h ho hfill
  obtain ⟨action, v, hv, -, hb⟩ := hcopy.enabled_at
  obtain ⟨id, d, hd, hnow, hseen⟩ := hcopy.decided_at
  obtain ⟨c, hc, -⟩ := hcopy.committed_at
  obtain ⟨hlt, hlt'⟩ := hcopy.ordered
  have before : ∀ k y, k ≤ enabled → tr[k]? = some y → y.2.clock ≤ b := by
    intro k y hk hy
    rw [← hb]
    exact clock_le h hk hy hv
  refine ⟨t, ht, b, enabled, decided, committed, hcopy, ?_, ?_⟩
  · intro j y hy hnone
    have hj : j ≤ enabled := by
      by_contra hj
      exact hnone enabled _ (by omega) hv
        (hcopy.approved enabled _ (le_refl _) (by omega) hv).inState
    exact ⟨(before j y hj hy).trans hcopy.traded, (before j y hj hy).trans hcopy.ingested⟩
  · rintro i j ⟨hij, hdis⟩
    -- no entry is both disabled and in the window of the copy
    have apart : ∀ k x, i ≤ k → k < j → enabled ≤ k → k ≤ committed → tr[k]? = some x → False := by
      intro k x h1 h2 h3 h4 hx
      cases InState.inj (hdis k x h1 h2 hx) (hcopy.approved k x h3 h4 hx).inState
    have side : ∀ x, tr[i]? = some x → committed < i ∨ j ≤ enabled := by
      intro x hx
      by_contra hne
      by_cases hie : i ≤ enabled
      · exact apart enabled _ hie (by omega) (le_refl _) (by omega) hv
      · exact apart i x (le_refl _) hij (by omega) (by omega) hx
    refine ⟨fun x y hx hy => ?_, fun hdated x y hx hy => ?_⟩
    · rcases side x hx with hi | hj
      · exact Or.inl (hseen.trans (clock_le h (by omega) hd hx))
      · exact Or.inr ((before j y hj hy).trans hcopy.ingested)
    · rcases side x hx with hi | hj
      · have hle : t.tradedAt ≤ o.t2DecidedAt := hdated.resolve_left (by omega)
        rw [hnow] at hle
        exact Or.inl (hle.trans (clock_le h (by omega) hd hx))
      · exact Or.inr ((before j y hj hy).trans hcopy.traded)

def Event.isTransition : Event → Bool
  | .transition _ _ => true
  | _ => false

/-- A played history is atomic if no transition leaves a call under way. -/
theorem atomic_run {pw : Py.DecPow} {tx : Py.Text} {s t : Sys} {tr : List (Event × Sys)}
    (h : Runs.Run (Step pw tx) s tr t)
    (hquiet : ∀ x ∈ tr, x.1.isTransition = true → x.2.pc.flight.isNone = true) :
    Runs.Run (AtomicStep pw tx) s tr t := by
  induction h with
  | nil => exact .nil
  | @snoc tr u e v _ hs ih =>
    refine .snoc e v (ih fun x hx => hquiet x (List.mem_append_left _ hx)) ⟨hs, ?_⟩
    rintro walletId action rfl
    have hq := hquiet (_, v) (List.mem_append_right _ (List.mem_singleton_self _)) rfl
    cases hs with
    | elsewhere _ db h lock => exact Option.isNone_iff_eq_none.mp hq
    | bot _ _ h => cases h

/-- The first trade's signal outlives a disabled interval and is skipped, a
later trade is filled. -/
def reenabled : List Command :=
  enrol ++ [.ingestTrade (sampleTrade 1 "a" 1 .buy 0)] ++ startCycle ++ [.begin] ++ endCycle ++
    [.tick 1, .transition 1 .disable, .tick 1, .transition 1 .reenable, .tick 1,
      .ingestTrade (sampleTrade 2 "b" 1 .buy 3), .tick 60] ++
    startCycle ++ [.begin] ++ fillNext "0.5" noFee ++ endCycle

theorem copied_only_while_approved_reenabled :
    (outcome liveSettings reenabled).db.paperOrders.map PaperOrder.missReason =
      [some .walletNotApproved, none] ∧
    ∀ o ∈ (outcome liveSettings reenabled).db.paperOrders, o.isFill = true →
      ∃ t ∈ (outcome liveSettings reenabled).db.trades, ∃ b enabled decided committed,
        Copied ((history liveSettings reenabled).getD []) o t b enabled decided committed := by
  refine ⟨by decide +kernel, fun o ho hfill => ?_⟩
  obtain ⟨t, ht, b, enabled, decided, committed, hcopy, -⟩ := copied_only_while_approved _ _ _ _ _ _
    (atomic_run (history_run (by decide +kernel)) (by decide +kernel)) o ho hfill
  exact ⟨t, ht, b, enabled, decided, committed, hcopy⟩

/-! ## Calls as they are -/

theorem disabled_run {pw : Py.DecPow} {tx : Py.Text} {walletId : Nat}
    {s t : Sys} {tr : List (Event × Sys)} (h : Runs.Run (Step pw tx) s tr t)
    (hs : InState .disabled walletId s)
    (hkept : ∀ x ∈ tr, x.1 ≠ .transition walletId .reenable) : InState .disabled walletId t := by
  induction h with
  | nil => exact hs
  | snoc e u _ hstep ih =>
    have hlast := hkept (e, u) (List.mem_append_right _ (List.mem_singleton_self _))
    exact (ih fun x hx => hkept x (List.mem_append_left _ hx)).disabled_step hstep hlast

/-- After a `disable` and until the wallet is re-enabled, at most one fill of it is committed: that
of the call that had passed its recheck before the `disable` and was under way then. -/
theorem disable_stops_later_calls (pw : Py.DecPow) (tx : Py.Text) (cfg : Settings) (t0 : Time)
    (tr : List (Event × Sys)) (s u t : Sys) (walletId : Nat) (tr' : List (Event × Sys))
    (h : SysRun pw tx cfg t0 tr s) (hdisable : Step pw tx s (.transition walletId .disable) u)
    (hr : Runs.Run (Step pw tx) u tr' t) (hkept : ∀ x ∈ tr', x.1 ≠ .transition walletId .reenable) :
    (∀ o ∈ t.db.paperOrders, o ∉ u.db.paperOrders → o.isFill = true → o.walletId = walletId →
      ∃ f, u.pc.flight = some f ∧ FillOf o f) ∧
    ∀ o ∈ t.db.paperOrders, ∀ o' ∈ t.db.paperOrders, o ∉ u.db.paperOrders → o' ∉ u.db.paperOrders →
      o.isFill = true → o'.isFill = true → o.walletId = walletId →
      o'.walletId = walletId → o = o' := by
  have hu : SysRun pw tx cfg t0 (tr ++ [(.transition walletId .disable, u)]) u :=
    .snoc _ _ h hdisable
  have origin : ∀ o ∈ t.db.paperOrders, o ∉ u.db.paperOrders →
      o.isFill = true → o.walletId = walletId →
      ∃ f, u.pc.flight = some f ∧ FillOf o f := by
    intro o ho hnew hfill hwallet
    obtain ⟨pre₁, e₁, c, post₁, s₁, htr₁, hpre₁, hs₁, hpost₁, hnew₁, hc, -⟩ :=
      hr.rise (fun s => o ∈ s.db.paperOrders) hnew ho
    obtain ⟨-, f, hf, hof⟩ := hs₁.fill_written (SysRun.ok (hu.trans hpre₁)) hnew₁ hc hfill
    by_cases hair : u.pc.flight = some f
    · exact ⟨f, hair, hof⟩
    · -- its gates would have been passed on a disabled wallet
      exfalso
      obtain ⟨pre₂, e₂, d, wait, s₂, htr₂, hpre₂, hs₂, -, hnf, hd, -⟩ :=
        hpre₁.rise (fun s => s.pc.flight = some f) hair hf
      obtain ⟨id, hbegun⟩ := (hs₂.flight hd).resolve_left hnf
      obtain ⟨w, b, hw, hstate, -, -, -⟩ := copyEnabled_iff.mp hbegun.requested.approved
      have happ : InState .approved walletId s₂ := by
        rw [← hwallet, hof.walletId]
        exact ⟨w, hw, hstate⟩
      have hdis : InState .disabled walletId s₂ := by
        refine disabled_run hpre₂ (disable_disables hdisable) fun x hx => hkept x ?_
        rw [htr₁, htr₂]
        exact List.mem_append_left _ (List.mem_append_left _ hx)
      cases InState.inj happ hdis
  refine ⟨origin, ?_⟩
  intro o ho o' ho' hnew hnew' hfill hfill' hwallet hwallet'
  obtain ⟨f, hf, hof⟩ := origin o ho hnew hfill hwallet
  obtain ⟨f', hf', hof'⟩ := origin o' ho' hnew' hfill' hwallet'
  obtain rfl := Option.some.inj (hf.symm.trans hf')
  have hkeys := (SysRun.lifecycle (hu.trans hr)).keys
  exact Keyed.eq_of_key PaperOrder.idempotencyKey hkeys ho ho' (hof.key.trans hof'.key.symm)

/-- Two pending BUYs of the wallet; the first waits for its fee. -/
def feeAwaited : Sys := outcome liveSettings (enrol ++
  [.ingestTrade (sampleTrade 1 "a" 1 .buy 0), .ingestTrade (sampleTrade 2 "b" 1 .buy 0)] ++
  startCycle ++ [.tick 30, .begin, .book (flatBook "0.5")])

def feeAwaitedDisabled : Sys := next feeAwaited (.transition 1 .disable)

/-- The fee comes in, then the second BUY is looked at. -/
def afterDisable : List (Event × Sys) :=
  continued feeAwaitedDisabled [.fee noFee, .begin, .finish, .sweep]

theorem disable_stops_later_calls_feeAwaited :
    (lastState feeAwaitedDisabled afterDisable).db.paperOrders.map PaperOrder.missReason =
      [none, some .walletNotApproved] ∧
    ∀ o ∈ (lastState feeAwaitedDisabled afterDisable).db.paperOrders,
      o ∉ feeAwaitedDisabled.db.paperOrders →
      o.isFill = true → o.walletId = 1 → ∃ f, feeAwaitedDisabled.pc.flight = some f ∧ FillOf o f :=
  ⟨by decide +kernel,
    (disable_stops_later_calls _ _ _ _ _ feeAwaited feeAwaitedDisabled _ 1 afterDisable
      (history_run (by decide +kernel)) (next_step (by decide +kernel))
      (continued_run (by decide +kernel)) (by decide +kernel)).1⟩

/-- The `disable` is not final: the call under way commits its fill after it. -/
theorem fill_after_disable :
    ¬ ∀ (pw : Py.DecPow) (tx : Py.Text) (cfg : Settings) (t0 : Time)
      (tr : List (Event × Sys)) (s u t : Sys)
      (walletId : Nat) (tr' : List (Event × Sys)), SysRun pw tx cfg t0 tr s →
      Step pw tx s (.transition walletId .disable) u → Runs.Run (Step pw tx) u tr' t →
      (∀ x ∈ tr', x.1 ≠ .transition walletId .reenable) →
      ∀ o ∈ t.db.paperOrders, o.isFill = true → o.walletId = walletId → o ∈ u.db.paperOrders := by
  intro h
  have hall := h _ _ _ _ _ feeAwaited feeAwaitedDisabled _ 1 afterDisable
    (history_run (by decide +kernel)) (next_step (by decide +kernel))
    (continued_run (by decide +kernel)) (by decide +kernel)
  exact absurd hall (by decide +kernel)

end Polycopy
