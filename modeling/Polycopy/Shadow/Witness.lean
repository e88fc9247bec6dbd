import Polycopy.Shadow.Ownership

/-!
# What the witness lists

The facts are the live rows and the orphans, and at the outer commit the live rows
are the survivors: a witness is exact when there are no orphans.

`ROLLED_BACK` is journaled by the soft rollback of the outer transaction only, and
not after `before_commit` has set `commit_started`.
-/

namespace Polycopy

open Savepoints Runs

/-! ## The two properties of a step -/

/-- A witness inserted lists the surviving rows of the transaction, each once. -/
def WitnessExact (s : Observed) (_ : SessionEvent) (t : Observed) : Prop :=
  ∀ w ∈ t.witnesses.drop s.witnesses.length,
    w.trades.Perm t.tx.survivors ∧ (w.trades.map TradeFact.sourceRecordId).Nodup

/-- `ROLLED_BACK` is journaled only by the rollback of an outer transaction, under the token
admitted for it, when `COMMIT` was not sent. -/
def RolledBackHonest (s : Observed) (e : SessionEvent) (t : Observed) : Prop :=
  ∀ token, FenceEvent.rolledBack token ∈ t.journal.drop s.journal.length →
    e = .rollback ∧ s.root.isSome ∧ .attempt token ∈ s.journal.drop s.begun ∧ s.attempted = false

/-- When a witness is to be inserted there are no orphans, or the last flush
inserts rows with their ids. -/
def NoOrphans (s : Observed) (e : SessionEvent) (_ : Observed) : Prop :=
  ∀ pending outcome, e = .commit pending outcome → outcome ≠ .flushRaised →
    ∀ p ∈ s.orphans, factKey p ∈ pending.map TradeFact.sourceRecordId

/-! ## Steps -/

/-- What any step does to the tables: the witnesses are those there were, and nothing but
`ATTEMPT` is journaled. -/
structure Uneventful (s t : Observed) : Prop where
  witnesses : t.witnesses = s.witnesses
  journal : t.journal = s.journal ∨ ∃ token, t.journal = s.journal ++ [.attempt token]

theorem Uneventful.exact {s t : Observed} (h : Uneventful s t)
    (e : SessionEvent) : WitnessExact s e t := by
  intro w hw
  rw [h.witnesses, List.drop_length] at hw
  cases hw

theorem Uneventful.not_rolledBack {s t : Observed} (h : Uneventful s t) (token : Nat) :
    FenceEvent.rolledBack token ∉ t.journal.drop s.journal.length := by
  intro htoken
  rcases h.journal with hj | ⟨other, hj⟩
  · rw [hj, List.drop_length] at htoken
    cases htoken
  · rw [hj, List.drop_left] at htoken
    have he := List.mem_singleton.mp htoken
    cases he

theorem Uneventful.honest {s t : Observed} (h : Uneventful s t)
    (e : SessionEvent) : RolledBackHonest s e t :=
  fun token htoken => absurd htoken (h.not_rolledBack token)

theorem Framed.uneventful {s t : Observed} (h : Framed s t) : Uneventful s t :=
  ⟨h.witnesses, Or.inl h.journal⟩

theorem uneventful_beforeFlush (s : Observed) (new : List TradeFact) :
    Uneventful s (s.beforeFlush new) := by
  have hu := admitted_beforeFlush s new
  refine ⟨hu.witnesses, ?_⟩
  rcases hu.journal with ⟨hj, -⟩ | ⟨token, hj, -⟩
  · exact Or.inl hj
  · exact Or.inr ⟨token, hj⟩

theorem uneventful_flushRaises {s : Observed} {r : Nat} (h : Observing s r) (new : List TradeFact) :
    Uneventful s (s.flushRaises new) := by
  have hu := admitted_beforeFlush s new
  have hquiet := uneventful_beforeFlush s new
  unfold Observed.flushRaises
  generalize s.beforeFlush new = u at hu hquiet
  obtain ⟨parent, hparent⟩ := Option.ne_none_iff_exists'.mp (parent_of_flush (hu.root.trans h.root))
  simp only [hparent, afterTransactionEnd_nested]
  unfold Observed.afterSoftRollback
  rw [if_pos (fun he => by cases he)]
  exact ⟨hquiet.witnesses, hquiet.journal⟩

theorem autobegin_kept (s : Observed) : s.autobegin.witnesses = s.witnesses ∧
    s.autobegin.journal = s.journal ∧
    s.autobegin.orphans = s.orphans := by
  unfold Observed.autobegin
  split <;> exact ⟨rfl, rfl, rfl⟩

theorem Uneventful.of_autobegin {s t : Observed}
    (h : Uneventful s.autobegin t) : Uneventful s t := by
  obtain ⟨hw, hj, -⟩ := autobegin_kept s
  refine ⟨h.witnesses.trans hw, ?_⟩
  rw [← hj]
  exact h.journal

theorem uneventful_endRoot (s : Observed) : Uneventful s s.endRoot := by
  unfold Observed.endRoot
  split <;> exact ⟨rfl, Or.inl rfl⟩

theorem Uneventful.after_framed {s t u : Observed} (h : Framed s t)
    (h' : Uneventful t u) : Uneventful s u := by
  refine ⟨h'.witnesses.trans h.witnesses, ?_⟩
  rw [← h.journal]
  exact h'.journal

theorem flush_tables (s : Observed) (new : List TradeFact) :
    Uneventful s (s.flush new) ∧ (s.flush new).tx.stack = s.tx.stack ∧
    (s.flush new).orphans = s.orphans.filter fun p =>
    factKey p ∉ new.map TradeFact.sourceRecordId := by
  have hu := admitted_beforeFlush s new
  have hquiet := uneventful_beforeFlush s new
  unfold Observed.flush
  generalize s.beforeFlush new = u at hu hquiet
  refine ⟨⟨hquiet.witnesses, hquiet.journal⟩, ?_, ?_⟩
  · show u.tx.stack = s.tx.stack
    rw [hu.tx]
  · show (u.orphans.filter fun p => factKey p ∉ new.map TradeFact.sourceRecordId) = _
    rw [hu.orphans]

/-- What holds of every step from a sound state. -/
structure StepSound (s : Observed) (e : SessionEvent) (t : Observed) : Prop where
  sound : Sound t
  honest : RolledBackHonest s e t
  exact_iff : WitnessExact s e t ↔ NoOrphans s e t

theorem StepSound.of_uneventful {s t : Observed} {e : SessionEvent}
    (hsound : Sound t) (hquiet : Uneventful s t)
    (hcommit : ∀ pending outcome, e = .commit pending outcome → outcome = .flushRaised) :
    StepSound s e t := by
  refine ⟨hsound, hquiet.honest e, iff_of_true (hquiet.exact e) ?_⟩
  exact fun pending outcome he hne => absurd (hcommit pending outcome he) hne

theorem endRoot_none {s : Observed} (h : s.root = none) : s.endRoot = s := by
  unfold Observed.endRoot
  rw [h]

theorem endRoot_some {s : Observed} {r : Nat} (h : s.root = some r) :
    s.endRoot = { s with
      root := none, orphans := [], observer := s.observer.afterTransactionEnd ⟨r, none⟩ } := by
  unfold Observed.endRoot
  rw [h]

theorem afterSoftRollback_none {s : Observed} {r : Nat}
    (h : s.observer.token.or s.observer.endedToken = none) :
    (s.afterSoftRollback ⟨r, none⟩).journal = s.journal := by
  unfold Observed.afterSoftRollback
  rw [if_neg (not_not_intro rfl)]
  dsimp only
  rw [h]

theorem afterSoftRollback_some {s : Observed} {r token : Nat}
    (h : s.observer.token.or s.observer.endedToken = some token) :
    (s.afterSoftRollback ⟨r, none⟩).journal =
      if s.observer.commitStarted ∨ s.observer.endedUnknown then s.journal
      else s.journal ++ [.rolledBack token] := by
  unfold Observed.afterSoftRollback
  rw [if_neg (not_not_intro rfl)]
  dsimp only
  rw [h]

theorem Observing.rollback_journal {s : Observed} {r : Nat} (h : Observing s r) :
    s.rollback.journal = s.journal ∨ ∃ token, s.rollback.journal = s.journal ++ [.rolledBack token] ∧
      .attempt token ∈ s.journal.drop s.begun ∧ s.attempted = false := by
  obtain ⟨hv, hframed, -⟩ := (endsTop_rollbackTop r).iterate s.tx.stack.length h
  unfold Observed.rollback
  rw [h.root]
  show ((Observed.rollbackTop^[s.tx.stack.length] s).endRoot.afterSoftRollback
    ⟨r, none⟩).journal = _ ∨ _
  generalize Observed.rollbackTop^[s.tx.stack.length] s = v at hv hframed
  rw [← hframed.journal, ← hframed.begun, ← hframed.attempted]
  have hended := endRoot_some hv.root
  -- the token and `commit_started` were put away when the transaction ended
  have hput : v.endRoot.observer.token.or v.endRoot.observer.endedToken = v.observer.token := by
    rw [hended]
    rfl
  cases htoken : v.observer.token with
  | none =>
    left
    rw [afterSoftRollback_none (hput.trans htoken), hended]
  | some token =>
    rw [afterSoftRollback_some (hput.trans htoken), hended]
    by_cases hstarted : v.observer.commitStarted = true
    · exact Or.inl (if_pos (Or.inr hstarted))
    · refine Or.inr ⟨token, ?_, hv.token token htoken, ?_⟩
      · exact if_neg fun he => he.elim (fun hf => by cases hf) hstarted
      · exact Bool.eq_false_iff.mpr fun hattempted => hstarted (hv.started hattempted)

theorem Sound.rollback {s : Observed} (h : Sound s) : StepSound s .rollback s.rollback := by
  rcases h with h | ⟨r, h⟩
  · have he : s.rollback = s := by
      unfold Observed.rollback
      rw [h.root]
    rw [he]
    exact StepSound.of_uneventful (Or.inl h) (Framed.refl s).uneventful fun _ _ he => by cases he
  · obtain ⟨hv, hframed, hstack⟩ := (endsTop_rollbackTop r).iterate s.tx.stack.length h
    rw [List.drop_length] at hstack
    have heq : s.rollback =
        (Observed.rollbackTop^[s.tx.stack.length] s).endRoot.afterSoftRollback ⟨r, none⟩ := by
      unfold Observed.rollback
      rw [h.root]
    have hwitnesses : s.rollback.witnesses = s.witnesses := by
      rw [heq]
      unfold Observed.afterSoftRollback
      rw [if_neg fun hne => hne rfl]
      exact (uneventful_endRoot _).witnesses.trans hframed.witnesses
    refine ⟨Or.inl (heq ▸ (hv.endRoot hstack).afterSoftRollback r), fun token htoken => ?_,
      iff_of_true (fun w hw => ?_) ?_⟩
    · rcases h.rollback_journal with hj | ⟨other, hj, hattempt, hnot⟩
      · rw [hj, List.drop_length] at htoken
        cases htoken
      · rw [hj, List.drop_left] at htoken
        obtain rfl := FenceEvent.rolledBack.inj (List.mem_singleton.mp htoken)
        exact ⟨rfl, by rw [h.root]; rfl, hattempt, hnot⟩
    · rw [hwitnesses, List.drop_length] at hw
      cases hw
    · exact fun pending outcome he => by cases he

/-- A commit that gets as far as the witness. -/
theorem Observing.commit_witness {b : Observed} {r : Nat}
    (h : Observing b r) {pending : List TradeFact} (hpending : b.Inserts pending) {t : Observed}
    (htx : t.tx = (b.commitStart.flush pending).tx)
    (hwitnesses : t.witnesses = (b.commitStart.witness pending).witnesses) :
    (∀ w ∈ t.witnesses.drop b.witnesses.length, w.trades.Perm t.tx.survivors ∧
      (w.trades.map TradeFact.sourceRecordId).Nodup) ↔
      ∀ p ∈ b.orphans, factKey p ∈ pending.map TradeFact.sourceRecordId := by
  obtain ⟨hu, hframed, hstack⟩ := h.commitStart
  have hv := hu.flush (Inserts.commitStart h hpending)
  obtain ⟨hquiet, hvstack, horphans⟩ := flush_tables b.commitStart pending
  rw [commitStart_orphans] at horphans
  have hempty : (b.commitStart.flush pending).orphans = [] ↔
      ∀ p ∈ b.orphans, factKey p ∈ pending.map TradeFact.sourceRecordId := by
    rw [horphans, List.filter_eq_nil_iff]
    refine forall₂_congr fun p _ => ?_
    rw [decide_eq_true_eq, not_not]
  have hbefore : (b.commitStart.flush pending).witnesses = b.witnesses :=
    hquiet.witnesses.trans hframed.witnesses
  rw [hwitnesses, htx, ← hempty]
  unfold Observed.witness
  rcases hv.beforeCommit_cases (hvstack.trans hstack) with ⟨hnone, hno⟩ | ⟨w, hsome, hiff⟩
  · simp only [hnone, hbefore, List.drop_length]
    exact iff_of_true (fun w hw => (List.not_mem_nil hw).elim) hno
  · simp only [hsome, hbefore, List.drop_left, List.mem_singleton, forall_eq]
    exact hiff

theorem witness_eq (s : Observed) (pending : List TradeFact) :
    ∃ witnesses, s.witness pending = { s.flush pending with witnesses } := by
  unfold Observed.witness
  dsimp only
  split
  · exact ⟨_, rfl⟩
  · exact ⟨_, rfl⟩

theorem flush_started (s : Observed) (new : List TradeFact) :
    (s.flush new).observer.commitStarted = s.observer.commitStarted :=
  (admitted_beforeFlush s new).started

/-- `COMMIT` is sent after `before_commit` only. -/
theorem Observing.sent {s : Observed} {r : Nat} (h : Observing s r)
    (hstarted : s.observer.commitStarted = true) (witnesses : List Witness) (usable : Bool) :
    Observing { s with witnesses, attempted := true, usable } r :=
  ⟨h.root, h.nested, h.fresh, h.below, h.apart, h.orphaned, h.candidates, h.facts,
    h.keys, h.admitted, h.token, h.begun, fun _ => hstarted⟩

theorem Observing.commit {b : Observed} {r : Nat} (h : Observing b r)
    {pending : List TradeFact} {outcome : CommitOutcome}
    (hpending : outcome = .flushRaised ∨ b.Inserts pending) :
    Sound (b.commit pending outcome) ∧
      (∀ token, FenceEvent.rolledBack token ∉
        (b.commit pending outcome).journal.drop b.journal.length) ∧
      ((∀ w ∈ (b.commit pending outcome).witnesses.drop b.witnesses.length,
        w.trades.Perm (b.commit pending outcome).tx.survivors ∧
          (w.trades.map TradeFact.sourceRecordId).Nodup) ↔
          (outcome ≠ .flushRaised → ∀ p ∈ b.orphans,
            factKey p ∈ pending.map TradeFact.sourceRecordId)) := by
  obtain ⟨hu, hframed, hstack⟩ := h.commitStart
  obtain ⟨hquiet, hvstack, -⟩ := flush_tables b.commitStart pending
  have hstarted : (b.commitStart.flush pending).observer.commitStarted = true :=
    flush_started b.commitStart pending
  obtain ⟨witnesses, hwitness⟩ := witness_eq b.commitStart pending
  -- what is journaled is what the flush journals
  have hhonest : ∀ {t : Observed}, t.journal = (b.commitStart.flush pending).journal →
      ∀ token, FenceEvent.rolledBack token ∉ t.journal.drop b.journal.length := by
    intro t ht
    rw [ht]
    exact (Uneventful.after_framed hframed hquiet).not_rolledBack
  cases outcome with
  | flushRaised =>
    have hall := Uneventful.after_framed hframed (uneventful_flushRaises hu pending)
    refine ⟨Or.inr ⟨r, hu.flushRaises pending⟩, hall.not_rolledBack,
      iff_of_true (hall.exact .rollback) ?_⟩
    exact fun hne => absurd rfl hne
  | commitRaised =>
    have hinserts := hpending.resolve_left (by decide)
    have hv := hu.flush (Inserts.commitStart h hinserts)
    have heq : b.commit pending .commitRaised =
        { b.commitStart.flush pending with witnesses, attempted := true, usable := false } := by
      show { b.commitStart.witness pending with attempted := true, usable := false } = _
      rw [hwitness]
    refine ⟨Or.inr ⟨r, heq ▸ hv.sent hstarted witnesses false⟩, hhonest (by rw [heq]), ?_⟩
    have hiff := h.commit_witness hinserts (t := b.commit pending .commitRaised)
      (by rw [heq]) (by rw [heq, hwitness])
    exact hiff.trans ⟨fun hall _ => hall, fun hall => hall fun he => by cases he⟩
  | committed =>
    have hinserts := hpending.resolve_left (by decide)
    have hv := hu.flush (Inserts.commitStart h hinserts)
    have heq : b.commit pending .committed =
        { b.commitStart.flush pending with witnesses, attempted := true }.endRoot := by
      show { b.commitStart.witness pending with
        attempted := true
        observer := (b.commitStart.witness pending).observer.afterCommit
          (b.commitStart.witness pending).nested }.endRoot = _
      rw [hwitness, nested_none (s := { b.commitStart.flush pending with witnesses })
        (hvstack.trans hstack)]
      rfl
    have hkept : ∀ s : Observed, s.endRoot.tx = s.tx ∧ s.endRoot.witnesses = s.witnesses ∧
        s.endRoot.journal = s.journal := by
      intro s
      unfold Observed.endRoot
      split <;> exact ⟨rfl, rfl, rfl⟩
    obtain ⟨htx, hwitnesses, hjournal⟩ :=
      hkept { b.commitStart.flush pending with witnesses, attempted := true }
    have hsent := hv.sent hstarted witnesses (b.commitStart.flush pending).usable
    refine ⟨Or.inl (heq ▸ hsent.endRoot (hvstack.trans hstack)), hhonest (heq ▸ hjournal), ?_⟩
    have hiff := h.commit_witness hinserts (t := b.commit pending .committed) (heq ▸ htx)
      (by rw [hwitness]; exact heq ▸ hwitnesses)
    exact hiff.trans ⟨fun hall _ => hall, fun hall => hall fun he => by cases he⟩

theorem ObservedStep.sound {s t : Observed} {e : SessionEvent} (h : Sound s)
    (hs : ObservedStep s e t) : StepSound s e t := by
  obtain ⟨b, hb⟩ := h.autobegin
  obtain ⟨hwitnesses, hjournal, horphans⟩ := autobegin_kept s
  unfold ObservedStep Next Observed.next at hs
  cases e with
  | flush new =>
    simp only [Option.ite_none_right_eq_some, Option.some.injEq] at hs
    obtain ⟨⟨-, hnew⟩, rfl⟩ := hs
    exact StepSound.of_uneventful (Or.inr ⟨b, hb.flush hnew⟩)
      (flush_tables _ new).1.of_autobegin fun _ _ he => by cases he
  | flushRaises new =>
    simp only [Option.ite_none_right_eq_some, Option.some.injEq] at hs
    obtain ⟨-, rfl⟩ := hs
    exact StepSound.of_uneventful (Or.inr ⟨b, hb.flushRaises new⟩)
      (uneventful_flushRaises hb new).of_autobegin fun _ _ he => by cases he
  | beginNested =>
    simp only [Option.ite_none_right_eq_some, Option.some.injEq] at hs
    obtain ⟨-, rfl⟩ := hs
    exact StepSound.of_uneventful (Or.inr ⟨b, hb.beginNested⟩)
      (Uneventful.of_autobegin ⟨rfl, Or.inl rfl⟩) fun _ _ he => by cases he
  | release handle =>
    simp only [Option.ite_none_right_eq_some, Option.some.injEq] at hs
    obtain ⟨⟨-, hopen⟩, rfl⟩ := hs
    rcases h with h | ⟨r, h⟩
    · rw [h.stack] at hopen
      cases hopen
    · obtain ⟨ht, hframed, -⟩ := (endsTop_releaseTop r).iterate (s.within handle + 1) h
      exact StepSound.of_uneventful (Or.inr ⟨r, ht⟩) hframed.uneventful fun _ _ he => by cases he
  | rollbackTo handle =>
    simp only [Option.ite_none_right_eq_some, Option.some.injEq] at hs
    obtain ⟨hopen, rfl⟩ := hs
    rcases h with h | ⟨r, h⟩
    · rw [h.stack] at hopen
      cases hopen
    · obtain ⟨hu, hframed, -⟩ := (endsTop_closeTop r).iterate (s.within handle) h
      have ht := (endsTop_rollbackTop r).observing _ hu
      have hframed' := hframed.trans ((endsTop_rollbackTop r).framed _ hu)
      refine StepSound.of_uneventful (Or.inr ⟨r, ?_⟩)
        ⟨hframed'.witnesses, Or.inl hframed'.journal⟩ fun _ _ he => by cases he
      exact ⟨ht.root, ht.nested, ht.fresh, ht.below, ht.apart, ht.orphaned, ht.candidates,
        ht.facts, ht.keys, ht.admitted, ht.token, ht.begun, ht.started⟩
  | commit pending outcome =>
    simp only [Option.ite_none_right_eq_some, Option.some.injEq] at hs
    obtain ⟨⟨-, hpending⟩, rfl⟩ := hs
    obtain ⟨hsound, hhonest, hiff⟩ := hb.commit hpending
    refine ⟨hsound, fun token htoken => absurd (hjournal ▸ htoken) (hhonest token), ?_⟩
    · unfold WitnessExact NoOrphans
      rw [← hwitnesses, hiff, horphans]
      constructor
      · intro hall pending' outcome' he hne
        obtain ⟨rfl, rfl⟩ := SessionEvent.commit.inj he
        exact hall hne
      · exact fun hall hne => hall pending outcome rfl hne
  | rollback =>
    obtain rfl := Option.some.inj hs
    exact h.rollback
  | close =>
    obtain rfl := Option.some.inj hs
    rcases h with h | ⟨r, h⟩
    · have he : s.close = s := by
        unfold Observed.close
        rw [h.stack]
        exact endRoot_none h.root
      rw [he]
      exact StepSound.of_uneventful (Or.inl h) (Framed.refl s).uneventful fun _ _ he => by cases he
    · obtain ⟨hu, hframed, hstack⟩ := (endsTop_closeTop r).iterate s.tx.stack.length h
      rw [List.drop_length] at hstack
      exact StepSound.of_uneventful (Or.inl (hu.endRoot hstack))
        (Uneventful.after_framed hframed (uneventful_endRoot _)) fun _ _ he => by cases he

/-! ## The theorem -/

/-- A session nothing was done with, under an observer of its own. -/
structure Observed.Fresh (s : Observed) : Prop where
  root : s.root = none
  stack : s.tx.stack = []
  orphans : s.orphans = []
  observer : s.observer = ⟨none, [], [], false, none, false⟩

theorem Observed.Fresh.sound {s : Observed} (h : s.Fresh) : Sound s :=
  Or.inl ⟨h.root, h.stack, h.orphans, by rw [h.observer], by rw [h.observer],
    by rw [h.observer], by rw [h.observer]⟩

/-- Along a run each witness is exact and each `ROLLED_BACK` honest, exactly if no witness is
inserted while there are orphans. -/
theorem witness_exact_iff (s t : Observed) (tr : List (SessionEvent × Observed)) (hstart : s.Fresh)
    (hrun : Run ObservedStep s tr t) :
    Each (fun s e t => WitnessExact s e t ∧ RolledBackHonest s e t) s tr ↔ Each NoOrphans s tr := by
  refine hrun.each_iff Sound (fun _ _ _ h hs _ => (hs.sound h).sound)
    (fun _ _ _ h hs => ?_) hstart.sound
  have hstep := hs.sound h
  exact (and_iff_left hstep.honest).trans hstep.exact_iff

/-! Two `SAVEPOINT`s, one in the other, and a trade in each. -/

def freshSession : Observed :=
  ⟨none, Tx.start, true, 0, ⟨none, [], [], false, none, false⟩, [], 0, [], 0, false, []⟩

theorem freshSession_fresh : freshSession.Fresh := ⟨rfl, rfl, rfl, rfl⟩

def nativeTrade (id : Nat) : TradeFact :=
  ⟨id, "trade", "0xa", "asset", "0xc", "BUY", "1.000000", none, "2026-01-01T00:00:00Z"⟩

/-- The outer one (1) is rolled back with the inner one (2) open. -/
def rolledBackOver : List SessionEvent :=
  [.beginNested, .flush [nativeTrade 1], .beginNested, .flush [nativeTrade 2],
    .rollbackTo 1, .flush [nativeTrade 3]]

def overBefore : Observed := after Observed.next freshSession rolledBackOver

def overAfter : Observed := stepTo Observed.next overBefore (.commit [] .committed)

/-- The witness lists trade 2, which is in no table. -/
theorem witness_lists_lost_trade :
    ∃ tr, Run ObservedStep freshSession tr overAfter ∧ freshSession.Fresh ∧
    ¬ Each (fun s e t => WitnessExact s e t ∧ RolledBackHonest s e t) freshSession tr ∧
    overAfter.witnesses = [⟨0, [nativeTrade 2, nativeTrade 3]⟩] ∧
    overAfter.tx.survivors = [nativeTrade 3] := by
  obtain ⟨tr, hrun, -⟩ := after_run Observed.next freshSession rolledBackOver (by decide +kernel)
  have hcommit : ObservedStep overBefore (.commit [] .committed) overAfter :=
    stepTo_step Observed.next (by decide +kernel)
  have hwitnesses : overAfter.witnesses = [⟨0, [nativeTrade 2, nativeTrade 3]⟩] := by decide +kernel
  have hbefore : overBefore.witnesses = [] := by decide +kernel
  have hsurvivors : overAfter.tx.survivors = [nativeTrade 3] := by decide +kernel
  refine ⟨_, hrun.snoc _ _ hcommit, freshSession_fresh, fun h => ?_, hwitnesses, hsurvivors⟩
  have hlast := ((each_snoc _ _ _ _ _).mp h).2.1
  rw [hrun.last_eq] at hlast
  have hnew : (⟨0, [nativeTrade 2, nativeTrade 3]⟩ : Witness) ∈
      overAfter.witnesses.drop overBefore.witnesses.length := by
    rw [hwitnesses, hbefore]
    exact List.mem_cons_self
  have hperm := (hlast _ hnew).1
  rw [hsurvivors] at hperm
  exact absurd hperm.length_eq (by decide)

/-- The inner one is rolled back, the outer one released; then a `COMMIT` raises and the
session is rolled back. -/
def nestedProperly : List SessionEvent :=
  [.beginNested, .flush [nativeTrade 1], .beginNested,
    .flush [nativeTrade 2], .rollbackTo 2, .release 1,
    .commit [nativeTrade 3] .committed, .flush [nativeTrade 4], .commit [] .commitRaised, .rollback,
    .flush [nativeTrade 4], .rollback]

def nestedTrace : List (SessionEvent × Observed) :=
  (replay Observed.next freshSession nestedProperly).getD []

theorem witness_exact_iff_nested :
    Run ObservedStep freshSession nestedTrace (last freshSession nestedTrace) ∧
    Each (fun s e t => WitnessExact s e t ∧ RolledBackHonest s e t) freshSession nestedTrace ∧
    (last freshSession nestedTrace).witnesses =
      [⟨0, [nativeTrade 1, nativeTrade 3]⟩, ⟨1, [nativeTrade 4]⟩] ∧
    (last freshSession nestedTrace).journal = [.attempt 0, .attempt 1,
      .attempt 2, .rolledBack 2] := by
  have hreplay : replay Observed.next freshSession nestedProperly = some nestedTrace := by
    decide +kernel
  have hrun := replay_run Observed.next hreplay
  refine ⟨hrun, (witness_exact_iff _ _ nestedTrace freshSession_fresh hrun).mpr ?_,
    by decide +kernel, by decide +kernel⟩
  refine each_of_states (fun s => s.orphans = [])
    (fun s e t hs pending outcome _ _ p hp => ?_) rfl (by decide +kernel)
  rw [hs] at hp
  cases hp

end Polycopy
