import Polycopy.Scoring.Decisions

/-!
# One open entry for each wallet in review

An entry is opened, decided or withdrawn in the transaction that moves its
wallet, under the lock of the wallet's row, but for one path: where the loaded
state and the verdict are both `pending_review` there is no `UPDATE` and no
lock, and the entry is inserted if none is found.  That path keeps the queue
right as long as the wallet is still in review when the scorer looks.
-/

namespace Polycopy

open Runs

/-! ## The open rows of a wallet -/

def openIn (id : Nat) (queue : List QueueRow) : List QueueRow :=
  queue.filter fun r => r.entry.isPendingOf id

theorem openIn_snoc (id : Nat) (queue : List QueueRow) (k w : Nat) :
    openIn id (queue ++ [⟨k, ⟨w, .pending, none, none⟩⟩]) =
      openIn id queue ++ if id = w then [⟨k, ⟨w, .pending, none, none⟩⟩] else [] := by
  unfold openIn
  rw [List.filter_append]
  by_cases h : id = w
  · simp [h, ApprovalQueueEntry.isPendingOf]
  · have h' : ¬ w = id := fun he => h he.symm
    simp [h, h', ApprovalQueueEntry.isPendingOf]

theorem setRows_ids (found : List Nat) (state : QueueState) (reviewer : String)
    (now : Time) (queue : List QueueRow) :
    (setRows found state reviewer now queue).map QueueRow.id = queue.map QueueRow.id := by
  unfold setRows
  rw [List.map_map]
  apply List.map_congr_left
  intro r _
  show (if r.id ∈ found then _ else r : QueueRow).id = r.id
  split <;> rfl

theorem filter_updated {α : Type} {l : List α} {f : α → α} {p q : α → Bool}
    (hp : ∀ a ∈ l, p (f a) = q a)
    (hf : ∀ a ∈ l, q a = true → f a = a) : (l.map f).filter p = l.filter q := by
  have hsame : l.filter (p ∘ f) = l.filter q := List.filter_congr fun a ha => hp a ha
  rw [List.filter_map, hsame]
  refine (List.map_congr_left fun a ha => ?_).trans (List.map_id _)
  obtain ⟨hmem, hq⟩ := List.mem_filter.mp ha
  exact hf a hmem hq

theorem mem_openIds {queue : List QueueRow} (hn : (queue.map QueueRow.id).Nodup) {w : Nat}
    {r : QueueRow} (hr : r ∈ queue) :
    r.id ∈ (openIn w queue).map QueueRow.id ↔ r.entry.isPendingOf w = true := by
  constructor
  · intro hid
    obtain ⟨r', hr', he⟩ := List.mem_map.mp hid
    obtain ⟨hmem, hopen⟩ := List.mem_filter.mp hr'
    obtain rfl := Keyed.eq_of_key QueueRow.id hn hmem hr he
    exact hopen
  · exact fun hopen => List.mem_map_of_mem (List.mem_filter.mpr ⟨hr, hopen⟩)

/-- Deciding or withdrawing the rows found closes those of the wallet and leaves those of others. -/
theorem openIn_setRows {queue : List QueueRow}
    (hn : (queue.map QueueRow.id).Nodup) {state : QueueState} (hstate : state ≠ .pending)
    (w : Nat) (reviewer : String) (now : Time) (id : Nat) :
    openIn id (setRows ((openIn w queue).map QueueRow.id) state reviewer now queue) =
      if id = w then [] else openIn id queue := by
  have hrow : ∀ r ∈ queue, (r.id ∈ (openIn w queue).map QueueRow.id ↔
      r.entry.isPendingOf w = true) :=
    fun r hr => mem_openIds hn hr
  have hopens : ∀ r : QueueRow, r.entry.isPendingOf w = true →
      r.entry.isPendingOf id = decide (id = w) := by
    intro r hopen
    have hw : r.entry.walletId = w ∧ r.entry.state = .pending := by
      simpa [ApprovalQueueEntry.isPendingOf] using hopen
    by_cases h : id = w
    · simp [h, hopen]
    · have h' : ¬ w = id := fun he => h he.symm
      simp [ApprovalQueueEntry.isPendingOf, hw.1, h, h']
  unfold setRows
  show List.filter _ (List.map _ _) = _
  rw [filter_updated (q := fun r => r.entry.isPendingOf id && !decide (id = w))]
  · by_cases h : id = w
    · simp [h]
    · simp [h, openIn]
  · intro r hr
    by_cases hopen : r.entry.isPendingOf w = true
    · rw [if_pos ((hrow r hr).mpr hopen), hopens r hopen]
      by_cases h : id = w
      · simp [ApprovalQueueEntry.isPendingOf, hstate]
      · simp [ApprovalQueueEntry.isPendingOf, hstate, h]
    · rw [if_neg fun hin => hopen ((hrow r hr).mp hin)]
      by_cases h : id = w
      · rw [h, Bool.eq_false_iff.mpr hopen]
        rfl
      · simp [h]
  · intro r hr hq
    refine if_neg fun hin => ?_
    rw [hopens r ((hrow r hr).mp hin)] at hq
    by_cases h : id = w <;> simp [h] at hq

/-! ## With nothing in between -/

theorem setRows_entries {queue : List QueueRow} (hn : (queue.map QueueRow.id).Nodup)
    (state : QueueState) (w : Nat) (reviewer : String) (now : Time) :
    (setRows ((openIn w queue).map QueueRow.id) state reviewer now queue).map QueueRow.entry =
      (queue.map QueueRow.entry).map fun e => if e.isPendingOf w then
        { e with state := state, decidedAt := some now, reviewer := some reviewer } else e := by
  unfold setRows
  rw [List.map_map, List.map_map]
  apply List.map_congr_left
  intro r hr
  show QueueRow.entry (if r.id ∈ _ then _ else r) = if r.entry.isPendingOf w then _ else r.entry
  by_cases hopen : r.entry.isPendingOf w = true
  · rw [if_pos ((mem_openIds hn hr).mpr hopen), if_pos hopen]
  · rw [if_neg fun hin => hopen ((mem_openIds hn hr).mp hin), if_neg hopen]

theorem openIn_entries (w : Nat) (queue : List QueueRow) :
    (openIn w queue).map QueueRow.entry = (queue.map QueueRow.entry).filter
      (ApprovalQueueEntry.isPendingOf w) := by
  rw [List.filter_map]
  rfl

/-- A wallet already in the state it is moved to stays as it is. -/
theorem update_same {wallets : List Wallet} (hn : (wallets.map Wallet.id).Nodup)
    {w : Wallet} (hw : w ∈ wallets) (now : Time) (hstate : w.approvalState = .pendingReview) :
    Keyed.update Wallet.id w.id (Wallet.moveTo .pendingReview now) wallets = wallets := by
  refine (List.map_congr_left fun w' hw' => ?_).trans (List.map_id _)
  show (if w'.id = w.id then w'.moveTo .pendingReview now else w') = w'
  by_cases h : w'.id = w.id
  · obtain rfl := Keyed.eq_of_key Wallet.id hn hw' hw h
    rw [if_pos rfl]
    unfold Wallet.moveTo
    rw [if_neg (by decide), ← hstate]
  · rw [if_neg h]

/-- The steps of a verdict, taken together, are `_apply_verdict`. -/
theorem applyVerdict_session {db db' : Db} {queue : List QueueRow}
    (hq : queue.map QueueRow.entry = db.approvalQueue) (hn : (queue.map QueueRow.id).Nodup)
    (hids : (db.wallets.map Wallet.id).Nodup) {w : Wallet} {verdict : String}
    {now : Time} (hw : db.wallet w.id = some w) {purpose : Purpose}
    (hjudge : judge (verdict = "pending_review") w.approvalState = some purpose)
    (h : applyVerdict now verdict w.id db = .ok db') :
    db'.wallets = (⟨w.id, purpose, now⟩ : ReviewJob).updateWallets db.wallets ∧
    db'.approvalQueue = ((⟨w.id, purpose, now⟩ : ReviewJob).closeQueue
      ((openIn w.id queue).map QueueRow.id) now queue).map
      QueueRow.entry := by
  have hmem := (Keyed.find_some Wallet.id hw).1
  unfold applyVerdict at h
  rw [hw] at h
  unfold judge at hjudge
  dsimp only at h
  split at hjudge
  · cases hjudge
  · next hauto =>
    rw [if_neg hauto] at h
    by_cases hverdict : verdict = "pending_review"
    · rw [decide_eq_true hverdict, if_pos rfl] at hjudge
      rw [if_pos hverdict] at h
      obtain rfl := Option.some.inj hjudge
      have hnil : (db.approvalQueue.filter (ApprovalQueueEntry.isPendingOf w.id)).isEmpty =
          decide ((openIn w.id queue).map QueueRow.id = []) := by
        rw [← hq, ← openIn_entries]
        cases openIn w.id queue <;> simp
      split at h
      · cases h
      · obtain rfl := Except.ok.inj h
        have hqueue : ∀ purpose : Purpose, purpose = .keepQueued ∨ purpose = .queue →
            (if (db.approvalQueue.filter (ApprovalQueueEntry.isPendingOf w.id)).isEmpty = true then
              db.approvalQueue ++ [(⟨w.id, .pending, none, none⟩ : ApprovalQueueEntry)]
              else db.approvalQueue) =
            ((⟨w.id, purpose, now⟩ : ReviewJob).closeQueue
              ((openIn w.id queue).map QueueRow.id) now queue).map
              QueueRow.entry := by
          intro purpose hpurpose
          rw [hnil, ← hq]
          unfold ReviewJob.closeQueue
          rcases hpurpose with rfl | rfl
          all_goals
            dsimp only
            by_cases hnone : (openIn w.id queue).map QueueRow.id = []
            · rw [if_pos hnone, if_pos (decide_eq_true hnone), List.map_append]
              rfl
            · rw [if_neg hnone, if_neg fun he => hnone (of_decide_eq_true he)]
        by_cases hreview : w.approvalState = .pendingReview
        · rw [if_pos hreview]
          exact ⟨update_same hids hmem now hreview, hqueue _ (.inl rfl)⟩
        · rw [if_neg hreview]
          exact ⟨rfl, hqueue _ (.inr rfl)⟩
    · rw [decide_eq_false hverdict, if_neg (by decide)] at hjudge
      rw [if_neg hverdict] at h
      split at hjudge
      · next hreview =>
        obtain rfl := Option.some.inj hjudge
        rw [if_pos hreview] at h
        obtain rfl := Except.ok.inj h
        refine ⟨rfl, ?_⟩
        show db.approvalQueue.map _ = (setRows _ _ _ _ _).map QueueRow.entry
        rw [setRows_entries hn, hq]
      · cases hjudge

/-- The steps of a decision, taken together, are `transition_wallet`. -/
theorem transitionWallet_session {db db' : Db} {queue : List QueueRow}
    (hq : queue.map QueueRow.entry = db.approvalQueue) (hn : (queue.map QueueRow.id).Nodup)
    {id : Nat} {action : TransitionAction} {now : Time}
    (h : transitionWallet now id action db = .ok db') :
    db'.wallets = (⟨id, .decide action, now⟩ : ReviewJob).updateWallets db.wallets ∧
    db'.approvalQueue = ((⟨id, .decide action, now⟩ : ReviewJob).closeQueue
      ((openIn id queue).map QueueRow.id) now queue).map
      QueueRow.entry := by
  unfold transitionWallet at h
  dsimp only at h
  split at h
  · cases h
  · split at h
    · cases h
    · split at h
      · cases h
      · next entries hentries =>
        obtain rfl := Except.ok.inj h
        refine ⟨rfl, ?_⟩
        unfold decideEntry at hentries
        split at hentries
        · cases hentries
        · obtain rfl := Except.ok.inj hentries
          show db.approvalQueue.map _ = (setRows _ _ _ _ _).map QueueRow.entry
          rw [setRows_entries hn, hq]

/-! ## What holds while sessions are at work -/

variable {ι : Type}

/-- A wallet in review has one open entry, any other has none. -/
def Consistent (s : Review ι) : Prop :=
  ∀ id, (s.openRows id).length = if s.stateOf id = some .pendingReview then 1 else 0

/-- The queue is right after the step, and no lookup raises in it. -/
def QueueKept (s : Review ι) (_ : ReviewEvent ι) (t : Review ι) : Prop :=
  Consistent t ∧ ∀ p job rest, t.pcs p = .raised job rest → s.pcs p = .raised job rest

/-- A scorer that commits without an `UPDATE` has looked for the entry while the
wallet was in review. -/
def SeenInReview (s : Review ι) (e : ReviewEvent ι) (_ : Review ι) : Prop :=
  ∀ p now job found seen rest, e = .commit p now → s.pcs p = .closing job found seen rest →
    job.purpose = .keepQueued → seen = some .pendingReview

structure QueueOk (s : Review ι) : Prop where
  consistent : Consistent s
  ids : (s.queue.map QueueRow.id).Nodup
  locks : ∀ p job, (s.pcs p).job = some job → job.purpose.write.isSome = true →
    s.locks job.walletId = some p
  found : ∀ p job found seen rest, s.pcs p = .closing job found seen rest →
    job.purpose.write.isSome = true →
    found = (s.openRows job.walletId).map QueueRow.id
  seen : ∀ p job found seen rest, s.pcs p = .closing job found seen rest →
    job.purpose = .keepQueued →
    (found = [] ↔ seen ≠ some .pendingReview)
  known : ∀ p, ∀ id ∈ (s.pcs p).ids, (s.stateOf id).isSome = true

/-- The open rows after a commit under the lock. -/
theorem openRows_write [DecidableEq ι] {s : Review ι} (h : QueueOk s) (now : Time) {p : ι}
    {job : ReviewJob} {found : List Nat} {seen : Option ApprovalState} {rest : Todo}
    (hpc : s.pcs p = .closing job found seen rest) {target : ApprovalState}
    (hwrite : job.purpose.write = some target) (id : Nat) :
    (s.write job found now).openRows id =
      if id = job.walletId then
        if target = .pendingReview then
          if s.openRows id = [] then [⟨Keyed.fresh QueueRow.id s.queue, ⟨id, .pending, none, none⟩⟩]
          else s.openRows id
        else []
      else s.openRows id := by
  have hfound := h.found p job found seen rest hpc (by rw [hwrite]; rfl)
  show openIn id (job.closeQueue found now s.queue) = _
  unfold ReviewJob.closeQueue
  cases hpurpose : job.purpose with
  | keepQueued =>
    rw [hpurpose] at hwrite
    cases hwrite
  | queue =>
    rw [hpurpose] at hwrite
    obtain rfl := Option.some.inj hwrite
    dsimp only
    have hnil : found = [] ↔ s.openRows job.walletId = [] := by rw [hfound, List.map_eq_nil_iff]
    rw [if_pos rfl]
    by_cases hid : id = job.walletId
    · rw [if_pos hid, hid]
      by_cases hnone : s.openRows job.walletId = []
      · have hnone' : openIn job.walletId s.queue = [] := hnone
        rw [if_pos (hnil.mpr hnone), if_pos hnone, openIn_snoc, if_pos rfl, hnone', List.nil_append]
      · rw [if_neg fun h => hnone (hnil.mp h), if_neg hnone]
        rfl
    · rw [if_neg hid]
      split
      · rw [openIn_snoc, if_neg hid, List.append_nil]
        rfl
      · rfl
  | withdraw =>
    rw [hpurpose] at hwrite
    obtain rfl := Option.some.inj hwrite
    dsimp only
    have hne : ApprovalState.discovered ≠ .pendingReview := by decide
    rw [if_neg hne, hfound]
    exact openIn_setRows h.ids (by decide) job.walletId "scorer" now id
  | decide action =>
    rw [hpurpose] at hwrite
    obtain rfl := Option.some.inj hwrite
    dsimp only
    have hne : (allowedTransitions action).2 ≠ .pendingReview := by cases action <;> decide
    have hclosed : QueueState.ofApproval (allowedTransitions action).2 ≠ .pending := by
      cases action <;> decide
    rw [if_neg hne, hfound]
    exact openIn_setRows h.ids hclosed job.walletId "human:api" now id

theorem Purpose.write_none {purpose : Purpose} (h : purpose.write = none) :
    purpose = .keepQueued := by
  cases purpose with
  | keepQueued => rfl
  | queue | withdraw | decide action => cases h

theorem openRows_kept {s : Review ι} {job : ReviewJob}
    (hpurpose : job.purpose = .keepQueued) (found : List Nat) (now : Time) (id : Nat) :
    (s.write job found now).openRows id = s.openRows id ++
      if found = [] ∧ id = job.walletId then
      [⟨Keyed.fresh QueueRow.id s.queue, ⟨job.walletId, .pending, none, none⟩⟩]
      else [] := by
  show openIn id (job.closeQueue found now s.queue) = _
  unfold ReviewJob.closeQueue
  rw [hpurpose]
  dsimp only
  by_cases hnone : found = []
  · rw [if_pos hnone, openIn_snoc]
    by_cases hid : id = job.walletId
    · rw [if_pos hid, if_pos ⟨hnone, hid⟩]
      rfl
    · rw [if_neg hid, if_neg fun h => hid h.2]
      rfl
  · rw [if_neg hnone, if_neg fun h => hnone h.1, List.append_nil]
    rfl

/-- Among the commits only one goes wrong: the insert of a scorer that sent no `UPDATE`, where the
wallet was not in review when it looked. -/
theorem consistent_commit [DecidableEq ι] {s : Review ι} (h : QueueOk s) {p : ι} {now : Time}
    {job : ReviewJob} {found : List Nat} {seen : Option ApprovalState} {rest : Todo}
    (hpc : s.pcs p = .closing job found seen rest) :
    Consistent (s.write job found now) ↔
    (job.purpose = .keepQueued → seen = some .pendingReview) := by
  cases hwrite : job.purpose.write with
  | none =>
    have hpurpose := Purpose.write_none hwrite
    have hseen := h.seen p job found seen rest hpc hpurpose
    constructor
    · intro hc _
      by_contra hnot
      have hnone := hseen.mpr hnot
      have hcount := hc job.walletId
      have hbefore := h.consistent job.walletId
      rw [openRows_kept hpurpose, if_pos ⟨hnone, rfl⟩, List.length_append, hbefore,
        stateOf_written, hwrite] at hcount
      simp at hcount
    · intro hin id
      have hsome : found ≠ [] := fun hnone => hseen.mp hnone (hin hpurpose)
      rw [openRows_kept hpurpose, if_neg fun hn => hsome hn.1,
        List.append_nil, stateOf_written, hwrite]
      exact h.consistent id
  | some target =>
    constructor
    · intro _ hpurpose
      rw [hpurpose] at hwrite
      cases hwrite
    · intro _ id
      have hbefore := h.consistent id
      have hrows := openRows_write h now hpc hwrite id
      have hstates := stateOf_written s job found now id
      rw [hwrite] at hstates
      dsimp only at hstates
      by_cases hid : id = job.walletId
      · have hknown : (s.stateOf id).isSome = true := by
          refine h.known p id ?_
          rw [hpc, hid]
          exact List.mem_cons_self
        obtain ⟨state, hstate⟩ := Option.isSome_iff_exists.mp hknown
        rw [if_pos hid] at hrows hstates
        rw [hstate, Option.map_some] at hstates
        rw [hrows, hstates]
        by_cases htarget : target = .pendingReview
        · rw [if_pos htarget, htarget, if_pos rfl]
          by_cases hnone : s.openRows id = []
          · rw [if_pos hnone]
            rfl
          · rw [if_neg hnone]
            have hpos : 0 < (s.openRows id).length := List.length_pos_of_ne_nil hnone
            split at hbefore
            · exact hbefore
            · omega
        · rw [if_neg htarget, if_neg fun he => htarget (Option.some.inj he)]
          rfl
      · rw [if_neg hid] at hrows hstates
        rw [hrows, hstates]
        exact hbefore

theorem closeQueue_ids {job : ReviewJob} {found : List Nat} {now : Time} {queue : List QueueRow}
    (hn : (queue.map QueueRow.id).Nodup) :
    ((job.closeQueue found now queue).map QueueRow.id).Nodup := by
  unfold ReviewJob.closeQueue
  cases job.purpose with
  | keepQueued | queue =>
    dsimp only
    split
    · exact Keyed.nodup_snoc QueueRow.id hn (Keyed.fresh_not_mem QueueRow.id queue)
    · exact hn
  | withdraw | decide action =>
    dsimp only
    rw [setRows_ids]
    exact hn

/-- Two sessions do not hold one row. -/
theorem QueueOk.apart {s : Review ι} (h : QueueOk s) {p q : ι} {job job' : ReviewJob}
    (hp : (s.pcs p).job = some job) (hq : (s.pcs q).job = some job')
    (hwrites : job.purpose.write.isSome = true) (hwrites' : job'.purpose.write.isSome = true)
    (hne : q ≠ p) : job'.walletId ≠ job.walletId := by
  intro he
  have hlock := h.locks p job hp hwrites
  have hlock' := h.locks q job' hq hwrites'
  rw [he, hlock] at hlock'
  exact hne (Option.some.inj hlock').symm

section

variable [DecidableEq ι]

/-- A step that leaves the tables alone. -/
theorem QueueOk.goto {s u : Review ι} (h : QueueOk s) (hwallets : u.wallets = s.wallets)
    (hqueue : u.queue = s.queue) (hpcs : u.pcs = s.pcs) {p : ι} {pc : ReviewPc}
    (hothers : ∀ q job, q ≠ p → (s.pcs q).job = some job → job.purpose.write.isSome = true →
      u.locks job.walletId = some q)
    (hown : ∀ job, pc.job = some job → job.purpose.write.isSome = true →
      u.locks job.walletId = some p)
    (hclosing : ∀ job found seen rest, pc = .closing job found seen rest →
      found = (s.openRows job.walletId).map QueueRow.id ∧ seen = s.stateOf job.walletId)
    (hrefers : Refers s p pc) : QueueOk (u.goto p pc) := by
  have hstate : ∀ id, (u.goto p pc).stateOf id = s.stateOf id := stateOf_congr hwallets
  have hrows : ∀ id, (u.goto p pc).openRows id = s.openRows id := by
    intro id
    show u.queue.filter _ = s.queue.filter _
    rw [hqueue]
  have hpc : ∀ q, (u.goto p pc).pcs q = if q = p then pc else s.pcs q := by
    intro q
    rw [Review.pcs_goto, hpcs]
  refine ⟨fun id => ?_, ?_, fun q job hjob hwrites => ?_, fun q job found seen rest hq hwrites => ?_,
    fun q job found seen rest hq hpurpose => ?_, fun q id hid => ?_⟩
  · rw [hstate, hrows]
    exact h.consistent id
  · show (u.queue.map QueueRow.id).Nodup
    rw [hqueue]
    exact h.ids
  · rw [hpc] at hjob
    by_cases hqp : q = p
    · rw [if_pos hqp] at hjob
      rw [hqp]
      exact hown job hjob hwrites
    · rw [if_neg hqp] at hjob
      exact hothers q job hqp hjob hwrites
  · rw [hrows]
    rw [hpc] at hq
    by_cases hqp : q = p
    · rw [if_pos hqp] at hq
      exact (hclosing job found seen rest hq).1
    · rw [if_neg hqp] at hq
      exact h.found q job found seen rest hq hwrites
  · rw [hpc] at hq
    by_cases hqp : q = p
    · rw [if_pos hqp] at hq
      obtain ⟨rfl, rfl⟩ := hclosing job found seen rest hq
      -- it looked at a queue that was right
      have hcount := h.consistent job.walletId
      rw [List.map_eq_nil_iff, ← List.length_eq_zero_iff]
      constructor
      · intro hzero hreview
        rw [if_pos hreview, hzero] at hcount
        cases hcount
      · intro hnot
        rw [if_neg hnot] at hcount
        exact hcount
    · rw [if_neg hqp] at hq
      exact h.seen q job found seen rest hq hpurpose
  · rw [hstate]
    rw [hpc] at hid
    by_cases hqp : q = p
    · rw [if_pos hqp] at hid
      rcases hrefers id hid with hold | hknown
      · exact h.known p id hold
      · exact hknown
    · rw [if_neg hqp] at hid
      exact h.known q id hid

theorem QueueOk.committed {s : Review ι} (h : QueueOk s) {p : ι} {now : Time}
    {job : ReviewJob} {found : List Nat} {seen : Option ApprovalState} {rest : Todo}
    (hpc : s.pcs p = .closing job found seen rest) {pc : ReviewPc} (hnone : pc.job = none)
    (hids : ∀ id ∈ pc.ids, id ∈ (s.pcs p).ids) (hkept : Consistent (s.write job found now)) :
    QueueOk (((s.write job found now).unlock p).goto p pc) := by
  have hrows : ∀ q job' found' seen' rest', q ≠ p → s.pcs q = .closing job' found' seen' rest' →
      job'.purpose.write.isSome = true →
      (s.write job found now).openRows job'.walletId = s.openRows job'.walletId := by
    intro q job' found' seen' rest' hqp hq hwrites
    cases hwrite : job.purpose.write with
    | none =>
      have hpurpose := Purpose.write_none hwrite
      have hin := (consistent_commit h hpc).mp hkept hpurpose
      have hsome : found ≠ [] := fun hn => (h.seen p job found seen rest hpc hpurpose).mp hn hin
      rw [openRows_kept hpurpose, if_neg fun hn => hsome hn.1, List.append_nil]
    | some target =>
      have hne := h.apart (by rw [hpc]; rfl) (by rw [hq]; rfl) (by rw [hwrite]; rfl) hwrites hqp
      rw [openRows_write h now hpc hwrite, if_neg hne]
  have hjobless : ∀ {q job'},
      ((((s.write job found now).unlock p).goto p pc).pcs q).job = some job' →
      q ≠ p ∧ (s.pcs q).job = some job' := by
    intro q job' hjob
    rw [Review.pcs_goto] at hjob
    by_cases hqp : q = p
    · rw [if_pos hqp, hnone] at hjob
      cases hjob
    · rw [if_neg hqp] at hjob
      exact ⟨hqp, hjob⟩
  have hclosing : ∀ {q job' found' seen' rest'},
      (((s.write job found now).unlock p).goto p pc).pcs q = .closing job' found' seen' rest' →
      q ≠ p ∧ s.pcs q = .closing job' found' seen' rest' := by
    intro q job' found' seen' rest' hq
    obtain ⟨hqp, -⟩ := hjobless (by rw [hq]; rfl)
    rw [Review.pcs_goto, if_neg hqp] at hq
    exact ⟨hqp, hq⟩
  refine ⟨hkept, closeQueue_ids h.ids, fun q job' hjob hwrites => ?_,
    fun q job' found' seen' rest' hq hwrites => ?_,
    fun q job' found' seen' rest' hq hpurpose => ?_, fun q id hid => ?_⟩
  · obtain ⟨hqp, hold⟩ := hjobless hjob
    have hlock := h.locks q job' hold hwrites
    show (if s.locks job'.walletId = some p then none else s.locks job'.walletId) = some q
    rw [hlock, if_neg fun he => hqp (Option.some.inj he)]
  · obtain ⟨hqp, hold⟩ := hclosing hq
    show found' = ((s.write job found now).openRows job'.walletId).map QueueRow.id
    rw [hrows q job' found' seen' rest' hqp hold hwrites]
    exact h.found q job' found' seen' rest' hold hwrites
  · obtain ⟨-, hold⟩ := hclosing hq
    exact h.seen q job' found' seen' rest' hold hpurpose
  · refine stateOf_write_isSome ?_ job found now
    rw [Review.pcs_goto] at hid
    by_cases hqp : q = p
    · rw [if_pos hqp] at hid
      exact h.known p id (hids id hid)
    · rw [if_neg hqp] at hid
      exact h.known q id hid

theorem ReviewStep.queueOk {s t : Review ι} {e : ReviewEvent ι}
    (h : QueueOk s) (hs : ReviewStep s e t) (hkept : QueueKept s e t) : QueueOk t := by
  have jobless : ∀ {pc : ReviewPc}, pc.job = none →
      ∀ job found seen rest, pc ≠ .closing job found seen rest := by
    intro pc hnone job found seen rest he
    rw [he] at hnone
    cases hnone
  cases hs.cases with
  | added w fresh state event after =>
    subst after
    have hstate := fun id => stateOf_added (s := s) fresh id
    refine ⟨hkept.1, h.ids, h.locks, h.found, h.seen, fun p id hid => ?_⟩
    rw [hstate]
    split
    · rfl
    · exact h.known p id hid
  | moved p pc quiet before none refers after =>
    subst after
    refine h.goto rfl rfl rfl (fun q job _ => h.locks q job) (fun job hjob => ?_)
      (fun job found seen rest he => ?_) refers
    · rw [none] at hjob
      cases hjob
    · exact absurd he (jobless none job found seen rest)
  | started p job rest quiet before reads refers after =>
    subst after
    refine h.goto rfl rfl rfl (fun q job _ => h.locks q job) (fun job' hjob hwrites => ?_)
      (fun job' found seen rest he => by cases he) refers
    obtain rfl := Option.some.inj hjob
    rw [reads] at hwrites
    cases hwrites
  | locked p job rest quiet before writes free matched refers after =>
    subst after
    refine h.goto (u := s.lock p job.walletId) rfl rfl rfl (fun q job' hqp hjob hwrites => ?_)
      (fun job' hjob hwrites => ?_) (fun job' found seen rest he => by cases he) refers
    · have hlock := h.locks q job' hjob hwrites
      have hne : job'.walletId ≠ job.walletId := fun he => by
        rw [he, free] at hlock
        cases hlock
      show Function.update s.locks job.walletId (some p) job'.walletId = some q
      rw [Function.update_of_ne hne]
      exact hlock
    · obtain rfl := Option.some.inj hjob
      exact Function.update_self _ _ _
  | looked p job rest event pc single after =>
    subst after
    refine h.goto rfl rfl rfl (fun q job _ => h.locks q job) (fun job' hjob hwrites => ?_)
      (fun job' found seen rest' he => ?_) fun id hid => ?_
    · refine h.locks p job' ?_ hwrites
      rw [pc]
      exact hjob
    · obtain ⟨rfl, rfl, rfl, -⟩ := ReviewPc.closing.inj he
      exact ⟨rfl, rfl⟩
    · left
      rw [pc]
      exact hid
  | raised p job rest event pc several after =>
    have hcount := h.consistent job.walletId
    split at hcount
    all_goals omega
  | committed p now job found seen rest event pc after =>
    subst after
    refine h.committed pc (by split <;> rfl) (fun id hid => ?_) hkept.1
    rw [pc]
    split at hid
    · cases hid
    · exact List.mem_cons_of_mem _ hid
  | ended p pc quiet none refers after =>
    subst after
    refine h.goto (u := s.unlock p) rfl rfl rfl
      (fun q job hqp hjob hwrites => ?_) (fun job hjob => ?_)
      (fun job found seen rest he => ?_) refers
    · have hlock := h.locks q job hjob hwrites
      show (if s.locks job.walletId = some p then _ else s.locks job.walletId) = some q
      rw [hlock, if_neg fun he => hqp (Option.some.inj he)]
    · rw [none] at hjob
      cases hjob
    · exact absurd he (jobless none job found seen rest)

theorem consistent_goto {s u : Review ι} (h : Consistent s) (hwallets : u.wallets = s.wallets)
    (hqueue : u.queue = s.queue) (p : ι) (pc : ReviewPc) : Consistent (u.goto p pc) := by
  intro id
  have hrows : (u.goto p pc).openRows id = s.openRows id := by
    show u.queue.filter _ = s.queue.filter _
    rw [hqueue]
  have hstates : (u.goto p pc).stateOf id = s.stateOf id := stateOf_congr hwallets id
  rw [hrows, hstates]
  exact h id

theorem raised_goto {s u : Review ι} (hpcs : u.pcs = s.pcs) {p : ι} {pc : ReviewPc}
    (hpc : ∀ job rest, pc ≠ .raised job rest) {q : ι} {job : ReviewJob} {rest : Todo}
    (h : (u.goto p pc).pcs q = .raised job rest) : s.pcs q = .raised job rest := by
  rw [Review.pcs_goto, hpcs] at h
  by_cases hqp : q = p
  · rw [if_pos hqp] at h
    exact absurd h (hpc job rest)
  · rwa [if_neg hqp] at h

theorem ReviewStep.queueKept_iff {s t : Review ι} {e : ReviewEvent ι}
    (h : QueueOk s) (hs : ReviewStep s e t) :
    QueueKept s e t ↔ SeenInReview s e t := by
  have quiet : (∀ p now, e ≠ .commit p now) → QueueKept s e t →
      (QueueKept s e t ↔ SeenInReview s e t) := by
    intro hne hkept
    exact ⟨fun _ p now _ _ _ _ he => absurd he (hne p now), fun _ => hkept⟩
  have jobless : ∀ {pc : ReviewPc}, pc.job = none → ∀ job rest, pc ≠ .raised job rest := by
    intro pc hnone job rest he
    rw [he] at hnone
    cases hnone
  cases hs.cases with
  | added w fresh state event after =>
    subst after
    refine quiet (fun p now he => by rw [event] at he; cases he)
      ⟨fun id => ?_, fun p job rest hp => hp⟩
    rw [stateOf_added fresh]
    have hcount := h.consistent id
    by_cases hid : id = w.id
    · rw [hid, stateOf_fresh fresh, if_neg (by decide)] at hcount
      rw [if_pos hid, state, if_neg (by decide), hid]
      exact hcount
    · rw [if_neg hid]
      exact hcount
  | moved p pc hquiet before none refers after =>
    subst after
    exact quiet hquiet ⟨consistent_goto h.consistent rfl rfl p pc,
      fun q job rest => raised_goto rfl (jobless none)⟩
  | started p job rest hquiet before reads refers after =>
    subst after
    exact quiet hquiet ⟨consistent_goto h.consistent rfl rfl p _,
      fun q job' rest' => raised_goto rfl fun job rest he => by cases he⟩
  | locked p job rest hquiet before writes free matched refers after =>
    subst after
    exact quiet hquiet ⟨consistent_goto (u := s.lock p job.walletId) h.consistent rfl rfl p _,
      fun q job' rest' => raised_goto (u := s.lock p job.walletId) rfl
        fun job rest he => by cases he⟩
  | looked p job rest event pc single after =>
    subst after
    exact quiet (fun p now he => by rw [event] at he; cases he)
      ⟨consistent_goto h.consistent rfl rfl p _,
      fun q job' rest' => raised_goto rfl fun job rest he => by cases he⟩
  | raised p job rest event pc several after =>
    have hcount := h.consistent job.walletId
    split at hcount
    all_goals omega
  | ended p pc hquiet none refers after =>
    subst after
    exact quiet hquiet ⟨consistent_goto (u := s.unlock p) h.consistent rfl rfl p pc,
      fun q job rest => raised_goto (u := s.unlock p) rfl (jobless none)⟩
  | committed p now job found seen rest event pc after =>
    subst event after
    constructor
    · intro hkept p' now' job' found' seen' rest' he hpc hpurpose
      obtain ⟨rfl, rfl⟩ := ReviewEvent.commit.inj he
      obtain ⟨rfl, rfl, rfl, rfl⟩ := ReviewPc.closing.inj (pc.symm.trans hpc)
      exact (consistent_commit h pc).mp hkept.1 hpurpose
    · intro hseen
      have hkept : Consistent (s.write job found now) :=
        (consistent_commit h pc).mpr (hseen p now job found seen rest rfl pc)
      refine ⟨hkept, fun q job' rest' => raised_goto (s := s)
        (u := (s.write job found now).unlock p) rfl ?_⟩
      intro job'' rest'' he
      split at he <;> cases he

/-! ## The theorem -/

/-- No session is at work, the queue is empty and every wallet is discovered. -/
structure Review.Fresh (s : Review ι) : Prop where
  idle : ∀ p, s.pcs p = .idle
  queue : s.queue = []
  discovered : ∀ w ∈ s.wallets, w.approvalState = .discovered

/-- Along a run each wallet in review has one open entry, others have none, and no lookup raises,
exactly if each scorer that commits a verdict without an `UPDATE` has looked while the wallet was in
review. -/
theorem approval_queue_kept_iff (s t : Review ι)
    (tr : List (ReviewEvent ι × Review ι)) (hstart : s.Fresh)
    (hrun : Run ReviewStep s tr t) : Each QueueKept s tr ↔ Each SeenInReview s tr := by
  refine hrun.each_iff QueueOk (fun _ _ _ h hs hkept => hs.queueOk h hkept)
    (fun _ _ _ h hs => hs.queueKept_iff h) ?_
  have hidle : ∀ {p} {pc : ReviewPc}, s.pcs p = pc → pc = .idle :=
    fun h => h.symm.trans (hstart.idle _)
  refine ⟨fun id => ?_, ?_, fun p job hjob => ?_, fun p job found seen rest hpc => ?_,
    fun p job found seen rest hpc => ?_, fun p id hid => ?_⟩
  · have hnone : s.openRows id = [] := by
      unfold Review.openRows
      rw [hstart.queue]
      rfl
    rw [hnone, if_neg]
    · rfl
    · intro hreview
      obtain ⟨w, hw, hstate⟩ := Option.map_eq_some_iff.mp hreview
      rw [hstart.discovered w (Keyed.find_some Wallet.id hw).1] at hstate
      cases hstate
  · rw [hstart.queue]
    exact List.nodup_nil
  · rw [hstart.idle p] at hjob
    cases hjob
  · cases hidle hpc
  · cases hidle hpc
  · rw [hstart.idle p] at hid
    cases hid

end

/-! Two scorers, the bot's and the API's, and a reviewer on one wallet. -/

def freshWallet : Review (Fin 3) :=
  ⟨[⟨1, "0xa", .discovered, none⟩], [], fun _ => none, fun _ => .idle, []⟩

theorem freshWallet_fresh : freshWallet.Fresh := ⟨fun _ => rfl, rfl, by decide⟩

/-- The first scorer puts the wallet in review; both scorers load it; one withdraws it again while
the other is still at work on it. -/
def withdrawnMeanwhile : List (ReviewEvent (Fin 3)) :=
  [.load 0 [(1, .discovered)], .verdict 0 true 0, .look 0, .commit 0 0, .stop 0,
    .load 0 [(1, .pendingReview)], .load 1 [(1, .pendingReview)],
    .verdict 1 false 0, .look 1, .commit 1 0, .verdict 0 true 0, .look 0]

def strayBefore : Review (Fin 3) := after Review.next freshWallet withdrawnMeanwhile

def strayAfter : Review (Fin 3) := stepTo Review.next strayBefore (.commit 0 0)

/-- The wallet is discovered and has an open entry. -/
theorem stray_entry : ∃ tr, Run ReviewStep freshWallet tr strayAfter ∧ freshWallet.Fresh ∧
    ¬ Each QueueKept freshWallet tr ∧
    strayAfter.stateOf 1 = some .discovered ∧ (strayAfter.openRows 1).length = 1 := by
  obtain ⟨tr, hrun, -⟩ := after_run Review.next freshWallet withdrawnMeanwhile (by decide +kernel)
  have hcommit : ReviewStep strayBefore (.commit 0 0) strayAfter :=
    stepTo_step Review.next (by decide +kernel)
  have hstate : strayAfter.stateOf 1 = some .discovered := by decide +kernel
  have hcount : (strayAfter.openRows 1).length = 1 := by decide +kernel
  refine ⟨_, hrun.snoc _ _ hcommit, freshWallet_fresh, fun h => ?_, hstate, hcount⟩
  have hlast := ((each_snoc _ _ _ _ _).mp h).2.1 1
  rw [hstate, hcount, if_neg (by decide)] at hlast
  cases hlast

/-- Scored twice with nothing in between. -/
def scoredOnce : List (ReviewEvent (Fin 3)) :=
  [.load 0 [(1, .discovered)], .verdict 0 true 0, .look 0]

def queuedBefore : Review (Fin 3) := after Review.next freshWallet scoredOnce

def queuedAfter : Review (Fin 3) := stepTo Review.next queuedBefore (.commit 0 0)

def scoredAgain : List (ReviewEvent (Fin 3)) :=
  [.load 1 [(1, .pendingReview)], .verdict 1 true 0, .look 1]

def keptBefore : Review (Fin 3) := after Review.next queuedAfter scoredAgain

def keptAfter : Review (Fin 3) := stepTo Review.next keptBefore (.commit 1 0)

theorem approval_queue_kept_iff_alone : ∃ tr, Run ReviewStep freshWallet tr keptAfter ∧
    Each QueueKept freshWallet tr ∧
    keptAfter.stateOf 1 = some .pendingReview := by
  obtain ⟨tr₁, hrun₁, hevents₁⟩ := after_run Review.next freshWallet scoredOnce (by decide +kernel)
  have hcommit₁ : ReviewStep queuedBefore (.commit 0 0) queuedAfter :=
    stepTo_step Review.next (by decide +kernel)
  obtain ⟨tr₂, hrun₂, hevents₂⟩ := after_run Review.next queuedAfter scoredAgain (by decide +kernel)
  have hcommit₂ : ReviewStep keptBefore (.commit 1 0) keptAfter :=
    stepTo_step Review.next (by decide +kernel)
  have hfirst := hrun₁.snoc _ _ hcommit₁
  have hall := hfirst.trans (hrun₂.snoc _ _ hcommit₂)
  have quiet : ∀ {es : List (ReviewEvent (Fin 3))} {tr s}, tr.map Prod.fst = es →
      (∀ p now, .commit p now ∉ es) →
      Each SeenInReview s tr := by
    intro es tr s hevents hno
    apply each_of_events
    rw [hevents]
    intro e he s t p now job found seen rest hcommit
    exact absurd (hcommit ▸ he) (hno p now)
  refine ⟨_, hall, (approval_queue_kept_iff _ _ _ freshWallet_fresh hall).mpr ?_, by decide +kernel⟩
  rw [each_append, hfirst.last_eq, each_snoc, each_snoc, hrun₁.last_eq, hrun₂.last_eq]
  refine ⟨⟨quiet hevents₁ (by simp [scoredOnce]), ?_⟩, quiet hevents₂ (by simp [scoredAgain]), ?_⟩
  · intro p now job found seen rest he hpc hpurpose
    obtain ⟨rfl, -⟩ := ReviewEvent.commit.inj he
    have hclosing : queuedBefore.pcs 0 = .closing ⟨1, .queue, 0⟩ [] (some .discovered) [] := by
      decide +kernel
    obtain ⟨rfl, -, -, -⟩ := ReviewPc.closing.inj (hclosing.symm.trans hpc)
    cases hpurpose
  · intro p now job found seen rest he hpc _
    obtain ⟨rfl, -⟩ := ReviewEvent.commit.inj he
    have hclosing : keptBefore.pcs 1 = .closing ⟨1, .keepQueued, 0⟩ [1]
        (some .pendingReview) [] := by
      decide +kernel
    obtain ⟨-, -, rfl, -⟩ := ReviewPc.closing.inj (hclosing.symm.trans hpc)
    rfl

end Polycopy
