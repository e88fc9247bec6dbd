import Polycopy.Scoring.Sessions

/-!
# Human decisions against a scorer's late verdict

The guard of `_apply_verdict` reads the state the scorer loaded before its many
requests; its `UPDATE` goes by primary key.  So a decision committed in between
is overwritten, unless the committed row would pass the guard as well.
-/

namespace Polycopy

open Runs

variable {ι : Type}

/-! ## The state of a wallet -/

theorem stateOf_congr {s t : Review ι} (h : t.wallets = s.wallets) (id : Nat) :
    t.stateOf id = s.stateOf id := by
  unfold Review.stateOf
  rw [h]

theorem stateOf_added {s : Review ι} {w : Wallet}
    (hw : w.id = Keyed.fresh Wallet.id s.wallets) (id : Nat) :
    ({ s with wallets := s.wallets ++ [w] } : Review ι).stateOf id =
      if id = w.id then some w.approvalState else s.stateOf id := by
  unfold Review.stateOf
  rw [Keyed.find_append, Keyed.find_cons]
  by_cases h : id = w.id
  · have hnone : Keyed.find Wallet.id w.id s.wallets = none := by
      apply (Keyed.find_none Wallet.id).mpr
      intro w' hw' he
      apply Keyed.fresh_not_mem Wallet.id s.wallets
      rw [← hw, ← he]
      exact List.mem_map_of_mem hw'
    rw [h, hnone, if_pos rfl, if_pos rfl]
    rfl
  · rw [if_neg (fun he => h he.symm), if_neg h]
    cases Keyed.find Wallet.id id s.wallets <;> rfl

theorem stateOf_written (s : Review ι) (job : ReviewJob)
    (found : List Nat) (now : Time) (id : Nat) :
    (s.write job found now).stateOf id =
      match job.purpose.write with
      | none => s.stateOf id
      | some target =>
        if id = job.walletId then (s.stateOf id).map fun _ => target else s.stateOf id := by
  unfold Review.stateOf
  show (Keyed.find Wallet.id id (job.updateWallets s.wallets)).map _ = _
  unfold ReviewJob.updateWallets
  cases job.purpose.write with
  | none => rfl
  | some target =>
    have hid : ∀ w : Wallet, (w.moveTo target job.now).id = w.id := fun _ => rfl
    dsimp only
    rw [Keyed.find_update Wallet.id hid]
    by_cases h : id = job.walletId
    · rw [if_pos h]
      cases hf : Keyed.find Wallet.id id s.wallets with
      | none => rfl
      | some w =>
        have hwid := (Keyed.find_some Wallet.id hf).2
        rw [Option.map_some, if_pos (hwid.trans h)]
        rfl
    · rw [if_neg h]
      cases hf : Keyed.find Wallet.id id s.wallets with
      | none => rfl
      | some w =>
        have hwid := (Keyed.find_some Wallet.id hf).2
        rw [Option.map_some, if_neg fun he => h (hwid.symm.trans he)]

theorem mem_decided_written (s : Review ι) (job : ReviewJob)
    (found : List Nat) (now : Time) (id : Nat) :
    id ∈ (s.write job found now).decided ↔
    id ∈ if job.purpose.human then job.walletId :: s.decided else s.decided := Iff.rfl

/-- A commit is about one wallet. -/
theorem stateOf_other {s : Review ι} {job : ReviewJob} {found : List Nat} {now : Time}
    {id : Nat} (h : id ≠ job.walletId) :
    (s.write job found now).stateOf id = s.stateOf id := by
  rw [stateOf_written]
  split
  · rfl
  · exact if_neg h

theorem mem_decided_other {s : Review ι} {job : ReviewJob} {found : List Nat} {now : Time}
    {id : Nat} (h : id ≠ job.walletId) :
    id ∈ (s.write job found now).decided ↔ id ∈ s.decided := by
  rw [mem_decided_written]
  split
  · exact ⟨fun hid => (List.mem_cons.mp hid).resolve_left h, List.mem_cons_of_mem _⟩
  · exact Iff.rfl

theorem stateOf_write_isSome {s : Review ι} {id : Nat}
    (h : (s.stateOf id).isSome = true) (job : ReviewJob) (found : List Nat)
    (now : Time) : ((s.write job found now).stateOf id).isSome = true := by
  rw [stateOf_written]
  cases job.purpose.write with
  | none => exact h
  | some target =>
    dsimp only
    split
    · rwa [Option.isSome_map]
    · exact h

/-- The new wallet was not there before. -/
theorem stateOf_fresh {s : Review ι} {w : Wallet} (hw : w.id = Keyed.fresh Wallet.id s.wallets) :
    s.stateOf w.id = none := by
  unfold Review.stateOf
  rw [(Keyed.find_none Wallet.id).mpr]
  · rfl
  · intro w' hw' he
    apply Keyed.fresh_not_mem Wallet.id s.wallets
    rw [← hw, ← he]
    exact List.mem_map_of_mem hw'

/-! ## When a decision stands -/

section

variable [DecidableEq ι]

/-- A scorer's commit leaves the state of every wallet a human has decided about. -/
def Respects (s : Review ι) (e : ReviewEvent ι) (t : Review ι) : Prop :=
  ∀ p now job found seen rest, e = .commit p now → s.pcs p = .closing job found seen rest →
    job.purpose.human = false →
    ∀ id ∈ s.decided, t.stateOf id = s.stateOf id

/-- The row a scorer's `UPDATE` goes to would pass the guard too, not only the loaded object. -/
def GuardHolds (s : Review ι) (e : ReviewEvent ι) (_ : Review ι) : Prop :=
  ∀ p now job found seen rest, e = .commit p now → s.pcs p = .closing job found seen rest →
    job.purpose.human = false →
    job.purpose.write.isSome = true → ∀ state, s.stateOf job.walletId = some state →
    state.automatic = true

/-- The wallets decided about are the ones in a state only a decision leads to. -/
structure Decided (s : Review ι) : Prop where
  taken : ∀ id ∈ s.decided, ∃ state, s.stateOf id = some state ∧ state.automatic = false
  free : ∀ id state, s.stateOf id = some state → id ∉ s.decided → state.automatic = true
  known : ∀ p job, (s.pcs p).job = some job → job.purpose.human = true →
    (s.stateOf job.walletId).isSome = true

theorem Purpose.write_human {purpose : Purpose} (h : purpose.human = true) :
    ∃ target, purpose.write = some target ∧ target.automatic = false := by
  cases purpose with
  | keepQueued | queue | withdraw => cases h
  | decide action => cases action <;> exact ⟨_, rfl, rfl⟩

theorem Purpose.write_scorer {purpose : Purpose}
    (h : purpose.human = false) {target : ApprovalState}
    (ht : purpose.write = some target) : target.automatic = true := by
  cases purpose with
  | keepQueued => cases ht
  | queue | withdraw =>
    obtain rfl := Option.some.inj ht
    rfl
  | decide action => cases h

omit [DecidableEq ι] in
/-- Nothing is said about the tables, and no session has a new decision under way. -/
theorem Decided.goto {s : Review ι} (h : Decided s) {t : Review ι}
    (hwallets : t.wallets = s.wallets) (hdecided : t.decided = s.decided)
    (hjobs : ∀ p job, (t.pcs p).job = some job → (s.pcs p).job = some job ∨
      (job.purpose.human = true → (s.stateOf job.walletId).isSome = true)) : Decided t := by
  have hstate := stateOf_congr hwallets
  refine ⟨fun id hid => ?_, fun id state hid hnot => ?_, fun p job hjob hhuman => ?_⟩
  · rw [hstate]
    exact h.taken id (hdecided ▸ hid)
  · rw [hstate] at hid
    exact h.free id state hid (hdecided ▸ hnot)
  · rw [hstate]
    rcases hjobs p job hjob with hold | hnew
    · exact h.known p job hold hhuman
    · exact hnew hhuman

theorem job_goto {s : Review ι} {p q : ι} {pc : ReviewPc} {job : ReviewJob}
    (h : ((s.goto p pc).pcs q).job = some job) :
    (q = p ∧ pc.job = some job) ∨ (s.pcs q).job = some job := by
  rw [Review.pcs_goto] at h
  by_cases hq : q = p
  · rw [if_pos hq] at h
    exact .inl ⟨hq, h⟩
  · rw [if_neg hq] at h
    exact .inr h

/-- What the commit of one session does to the states. -/
theorem Decided.committed {s : Review ι} (h : Decided s) {p : ι} {now : Time}
    {job : ReviewJob} {found : List Nat} {seen : Option ApprovalState} {rest : Todo}
    (hpc : s.pcs p = .closing job found seen rest) {pc : ReviewPc} (hnone : pc.job = none)
    (hfree : job.purpose.human = false → job.purpose.write.isSome = true →
      job.walletId ∉ s.decided) :
    Decided (((s.write job found now).unlock p).goto p pc) := by
  refine ⟨fun id hid => ?_, fun id state hid hnot => ?_, fun q job' hjob hhuman => ?_⟩
  · change id ∈ (s.write job found now).decided at hid
    show ∃ state, (s.write job found now).stateOf id = some state ∧ _
    by_cases hw : id = job.walletId
    · rw [stateOf_written]
      cases hhuman : job.purpose.human with
      | true =>
        obtain ⟨target, hwrite, htarget⟩ := Purpose.write_human hhuman
        obtain ⟨state, hs⟩ := Option.isSome_iff_exists.mp (h.known p job (by rw [hpc]; rfl) hhuman)
        rw [hwrite]
        dsimp only
        rw [if_pos hw, hw, hs]
        exact ⟨target, rfl, htarget⟩
      | false =>
        have hdecided : id ∈ s.decided := by
          rwa [mem_decided_written, hhuman, if_neg Bool.false_ne_true] at hid
        cases hwrite : job.purpose.write with
        | none => exact h.taken id hdecided
        | some target => exact absurd (hw ▸ hdecided) (hfree hhuman (by rw [hwrite]; rfl))
    · rw [stateOf_other hw]
      exact h.taken id ((mem_decided_other hw).mp hid)
  · change (s.write job found now).stateOf id = some state at hid
    change id ∉ (s.write job found now).decided at hnot
    by_cases hw : id = job.walletId
    · have hhuman : job.purpose.human = false := by
        by_contra hhuman
        rw [Bool.not_eq_false] at hhuman
        exact hnot (by rw [mem_decided_written, hhuman, if_pos rfl, hw]; exact List.mem_cons_self)
      rw [mem_decided_written, hhuman, if_neg Bool.false_ne_true] at hnot
      rw [stateOf_written] at hid
      cases hwrite : job.purpose.write with
      | none =>
        rw [hwrite] at hid
        exact h.free id state hid hnot
      | some target =>
        rw [hwrite] at hid
        dsimp only at hid
        rw [if_pos hw] at hid
        obtain ⟨_, -, rfl⟩ := Option.map_eq_some_iff.mp hid
        exact Purpose.write_scorer hhuman hwrite
    · rw [stateOf_other hw] at hid
      exact h.free id state hid fun hdecided => hnot ((mem_decided_other hw).mpr hdecided)
  · rcases job_goto hjob with ⟨-, hjob⟩ | hjob
    · rw [hnone] at hjob
      cases hjob
    · exact stateOf_write_isSome (h.known q job' hjob hhuman) job found now

omit [DecidableEq ι] in
/-- A scorer's `UPDATE` respects the decisions exactly if there is none about its wallet. -/
theorem respects_commit {s : Review ι} (h : Decided s) {job : ReviewJob}
    (found : List Nat) (now : Time) {target : ApprovalState}
    (hscorer : job.purpose.human = false) (hwrite : job.purpose.write = some target) :
    (∀ id ∈ s.decided, (s.write job found now).stateOf id = s.stateOf id) ↔
    job.walletId ∉ s.decided := by
  constructor
  · intro hkeep hin
    obtain ⟨state, hs, hhuman⟩ := h.taken _ hin
    have hkept := hkeep _ hin
    rw [stateOf_written, hwrite] at hkept
    dsimp only at hkept
    rw [if_pos rfl, hs] at hkept
    obtain rfl : target = state := Option.some.inj hkept
    rw [Purpose.write_scorer hscorer hwrite] at hhuman
    cases hhuman
  · intro hnot id hid
    rw [stateOf_written, hwrite]
    dsimp only
    exact if_neg fun (he : id = job.walletId) => hnot (he ▸ hid)

omit [DecidableEq ι] in
theorem guard_commit {s : Review ι} (h : Decided s) {id : Nat} :
    (∀ state, s.stateOf id = some state → state.automatic = true) ↔ id ∉ s.decided := by
  constructor
  · intro hguard hin
    obtain ⟨state, hs, hhuman⟩ := h.taken id hin
    rw [hguard state hs] at hhuman
    cases hhuman
  · exact fun hnot state hs => h.free id state hs hnot

theorem ReviewStep.decided {s t : Review ι} {e : ReviewEvent ι}
    (h : Decided s) (hs : ReviewStep s e t) (hkeep : Respects s e t) : Decided t := by
  have moved : ∀ {u : Review ι} {p : ι} {pc : ReviewPc}, u.wallets = s.wallets →
      u.decided = s.decided → u.pcs = s.pcs →
      (∀ job, pc.job = some job → (s.pcs p).job = some job ∨
        (job.purpose.human = true → (s.stateOf job.walletId).isSome = true)) →
        Decided (u.goto p pc) := by
    intro u p pc hwallets hdecided hpcs hjob
    refine h.goto hwallets hdecided fun q job hq => ?_
    rcases job_goto hq with ⟨rfl, hpc⟩ | hold
    · exact hjob job hpc
    · exact .inl (hpcs ▸ hold)
  cases hs.cases with
  | added w fresh state event after =>
    subst after
    have hstate := fun id => stateOf_added (s := s) fresh id
    have hnone := stateOf_fresh (s := s) fresh
    refine ⟨fun id hid => ?_, fun id state' hid hnot => ?_, fun p job hjob hhuman => ?_⟩
    · obtain ⟨state', hs', hhuman⟩ := h.taken id hid
      have hne : id ≠ w.id := fun he => by
        rw [he, hnone] at hs'
        cases hs'
      refine ⟨state', ?_, hhuman⟩
      rw [hstate, if_neg hne]
      exact hs'
    · rw [hstate] at hid
      by_cases hw : id = w.id
      · rw [if_pos hw, state] at hid
        obtain rfl := Option.some.inj hid
        rfl
      · rw [if_neg hw] at hid
        exact h.free id state' hid hnot
    · have hold := h.known p job hjob hhuman
      rw [hstate]
      by_cases hw : job.walletId = w.id
      · rw [if_pos hw]
        rfl
      · rwa [if_neg hw]
  | moved p pc quiet before none refers after =>
    subst after
    refine moved (u := s) rfl rfl rfl fun job hjob => ?_
    rw [none] at hjob
    cases hjob
  | started p job rest quiet before reads refers after =>
    subst after
    refine moved (u := s) rfl rfl rfl fun job' hjob => .inr fun hhuman => ?_
    obtain rfl := Option.some.inj hjob
    obtain ⟨target, hwrite, -⟩ := Purpose.write_human hhuman
    rw [reads] at hwrite
    cases hwrite
  | locked p job rest quiet before writes free matched refers after =>
    subst after
    refine moved (u := s.lock p job.walletId) rfl rfl rfl fun job' hjob => .inr fun hhuman => ?_
    obtain rfl := Option.some.inj hjob
    cases hpurpose : job.purpose with
    | decide action =>
      rw [matched action hpurpose]
      rfl
    | keepQueued | queue | withdraw =>
      rw [hpurpose] at hhuman
      cases hhuman
  | looked p job rest event pc single after =>
    subst after
    refine moved (u := s) rfl rfl rfl fun job' hjob => .inl ?_
    rw [pc]
    exact hjob
  | raised p job rest event pc several after =>
    subst after
    refine moved (u := s) rfl rfl rfl fun job' hjob => .inl ?_
    rw [pc]
    exact hjob
  | committed p now job found seen rest event pc after =>
    subst after
    refine h.committed pc (by split <;> rfl) fun hscorer hwrites => ?_
    obtain ⟨target, hwrite⟩ := Option.isSome_iff_exists.mp hwrites
    exact (respects_commit h found now hscorer hwrite).mp
      (hkeep p now job found seen rest event pc hscorer)
  | ended p pc quiet none refers after =>
    subst after
    refine moved (u := s.unlock p) rfl rfl rfl fun job hjob => ?_
    rw [none] at hjob
    cases hjob

theorem ReviewStep.respects_iff {s t : Review ι} {e : ReviewEvent ι}
    (h : Decided s) (hs : ReviewStep s e t) :
    Respects s e t ↔ GuardHolds s e t := by
  have quiet : (∀ p now, e ≠ .commit p now) → (Respects s e t ↔ GuardHolds s e t) := by
    intro hne
    constructor
    · exact fun _ p now _ _ _ _ he => absurd he (hne p now)
    · exact fun _ p now _ _ _ _ he => absurd he (hne p now)
  cases hs.cases with
  | added w fresh state event after => exact quiet fun p now he => by rw [event] at he; cases he
  | moved p pc hquiet before none refers after => exact quiet hquiet
  | started p job rest hquiet before reads refers after => exact quiet hquiet
  | locked p job rest hquiet before writes free matched refers after => exact quiet hquiet
  | looked p job rest event pc single after =>
    exact quiet fun p now he => by rw [event] at he; cases he
  | raised p job rest event pc several after =>
    exact quiet fun p now he => by rw [event] at he; cases he
  | ended p pc hquiet none refers after => exact quiet hquiet
  | committed p now job found seen rest event pc after =>
    subst event after
    constructor
    · intro hkeep p' now' job' found' seen' rest' he hpc hscorer hwrites
      obtain ⟨rfl, rfl⟩ := ReviewEvent.commit.inj he
      obtain ⟨rfl, rfl, rfl, rfl⟩ := ReviewPc.closing.inj (pc.symm.trans hpc)
      obtain ⟨target, hwrite⟩ := Option.isSome_iff_exists.mp hwrites
      exact (guard_commit h).mpr ((respects_commit h found now hscorer hwrite).mp
        (hkeep p now job found seen rest rfl pc hscorer))
    · intro hguard p' now' job' found' seen' rest' he hpc hscorer
      obtain ⟨rfl, rfl⟩ := ReviewEvent.commit.inj he
      obtain ⟨rfl, rfl, rfl, rfl⟩ := ReviewPc.closing.inj (pc.symm.trans hpc)
      show ∀ id ∈ s.decided, (s.write job found now).stateOf id = s.stateOf id
      cases hwrite : job.purpose.write with
      | none =>
        intro id _
        rw [stateOf_written, hwrite]
      | some target =>
        refine (respects_commit h found now hscorer hwrite).mpr ((guard_commit h).mp ?_)
        exact hguard p now job found seen rest rfl pc hscorer (by rw [hwrite]; rfl)

/-! ## The theorem -/

/-- No session is at work, and the wallets decided about so far are known. -/
structure Review.Start (s : Review ι) : Prop where
  idle : ∀ p, s.pcs p = .idle
  decided : ∀ id, id ∈ s.decided ↔ ∃ state, s.stateOf id = some state ∧ state.automatic = false

/-- Along a run no scorer changes the state of a wallet that a human has decided about, exactly if
each state a scorer's `UPDATE` overwrites is one its guard would have let pass. -/
theorem scorer_respects_decisions_iff (s t : Review ι)
    (tr : List (ReviewEvent ι × Review ι)) (hstart : s.Start)
    (hrun : Run ReviewStep s tr t) : Each Respects s tr ↔ Each GuardHolds s tr := by
  refine hrun.each_iff Decided (fun _ _ _ h hs hkeep => hs.decided h hkeep)
    (fun _ _ _ h hs => hs.respects_iff h) ?_
  refine ⟨fun id hid => (hstart.decided id).mp hid,
    fun id state hid hnot => ?_, fun p job hjob => ?_⟩
  · by_contra hauto
    exact hnot ((hstart.decided id).mpr ⟨state, hid, Bool.eq_false_iff.mpr hauto⟩)
  · rw [hstart.idle p] at hjob
    cases hjob

end

/-! A scorer and a reviewer.  Wallet 1 waits for review, wallet 2 is approved. -/

def reviewedWallets : Review Bool :=
  ⟨[⟨1, "0xa", .pendingReview, none⟩, ⟨2, "0xb", .approved, some 0⟩],
    [⟨1, ⟨1, .pending, none, none⟩⟩], fun _ => none, fun _ => .idle, [2]⟩

theorem reviewedWallets_start : reviewedWallets.Start := by
  refine ⟨fun p => rfl, fun id => ?_⟩
  unfold Review.stateOf reviewedWallets
  by_cases h1 : id = 1
  · subst h1
    simp [Keyed.find, ApprovalState.automatic]
  · by_cases h2 : id = 2
    · subst h2
      simp [Keyed.find, ApprovalState.automatic]
    · have h1' : ¬ 1 = id := fun h => h1 h.symm
      have h2' : ¬ 2 = id := fun h => h2 h.symm
      simp [Keyed.find, h2, h1', h2']

/-- The scorer loads wallet 1, the reviewer approves it, the verdict falls below the review band. -/
def lateVerdict : List (ReviewEvent Bool) :=
  [.load true [(1, .pendingReview)], .transition false 1 .approve 5, .look false, .commit false 5,
    .verdict true false 0, .look true]

/-- The states before and after the scorer's commit. -/
def lateBefore : Review Bool := after Review.next reviewedWallets lateVerdict

def lateAfter : Review Bool := stepTo Review.next lateBefore (.commit true 0)

theorem scorer_overrides_approval :
    ∃ tr, Run ReviewStep reviewedWallets tr lateAfter ∧ reviewedWallets.Start ∧
      ¬ Each Respects reviewedWallets tr ∧
      lateBefore.stateOf 1 = some .approved ∧ lateAfter.stateOf 1 = some .discovered := by
  obtain ⟨tr, hrun, -⟩ := after_run Review.next reviewedWallets lateVerdict (by decide +kernel)
  have hcommit : ReviewStep lateBefore (.commit true 0) lateAfter :=
    stepTo_step Review.next (by decide +kernel)
  have hbefore : lateBefore.stateOf 1 = some .approved := by decide +kernel
  have hafter : lateAfter.stateOf 1 = some .discovered := by decide +kernel
  refine ⟨_, hrun.snoc _ _ hcommit, reviewedWallets_start, fun h => ?_, hbefore, hafter⟩
  have hlast := ((each_snoc _ _ _ _ _).mp h).2
  rw [hrun.last_eq] at hlast
  have hpc : lateBefore.pcs true = .closing ⟨1, .withdraw, 0⟩ [] (some .approved) [] := by
    decide +kernel
  have hkept : lateAfter.stateOf 1 = lateBefore.stateOf 1 :=
    hlast true 0 _ _ _ _ rfl hpc rfl 1 (by decide +kernel)
  rw [hbefore, hafter] at hkept
  cases hkept

def promptVerdict : List (ReviewEvent Bool) :=
  [.load true [(1, .pendingReview)], .verdict true false 0, .look true]

def promptBefore : Review Bool := after Review.next reviewedWallets promptVerdict

def promptAfter : Review Bool := stepTo Review.next promptBefore (.commit true 0)

/-- With nothing in between, the scorer withdraws wallet 1 and leaves wallet 2 approved. -/
theorem scorer_respects_decisions_iff_alone : ∃ tr, Run ReviewStep reviewedWallets tr promptAfter ∧
    Each Respects reviewedWallets tr ∧ promptAfter.stateOf 1 = some .discovered := by
  obtain ⟨tr, hrun, hevents⟩ :=
    after_run Review.next reviewedWallets promptVerdict (by decide +kernel)
  have hcommit : ReviewStep promptBefore (.commit true 0) promptAfter :=
    stepTo_step Review.next (by decide +kernel)
  have hall := hrun.snoc _ _ hcommit
  refine ⟨_, hall, (scorer_respects_decisions_iff _ _ _ reviewedWallets_start hall).mpr ?_,
    by decide +kernel⟩
  rw [each_snoc, hrun.last_eq]
  constructor
  · apply each_of_events
    rw [hevents]
    intro e he s t p now job found seen rest hcommit
    subst hcommit
    simp [promptVerdict] at he
  · intro p now job found seen rest he hpc _ _ state hstate
    obtain ⟨rfl, -⟩ := ReviewEvent.commit.inj he
    have hclosing : promptBefore.pcs true = .closing ⟨1, .withdraw, 0⟩ [1]
        (some .pendingReview) [] := by
      decide +kernel
    obtain ⟨rfl, -, -, -⟩ := ReviewPc.closing.inj (hclosing.symm.trans hpc)
    have hpending : promptBefore.stateOf 1 = some .pendingReview := by decide +kernel
    obtain rfl := Option.some.inj (hpending.symm.trans hstate)
    rfl

end Polycopy
