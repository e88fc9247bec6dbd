import Polycopy.Shadow.Hook

/-!
# A healthy hook

A healthy hook has in memory what its two files say (`Hook.Mirrors`), so each of its
appends finds in both what it is to find (`acts_lawful`), and however far a call comes
what is on disk stays `Written` (`perform_keeps`).
-/

namespace Polycopy.Observation

open Py Py.Clock Runs
open Comparison (raiseIf raiseIf_ok_iff raiseIf_not raiseIf_pos bind_ok_iff notBefore WriteFault)

variable {φ : Type}

/-! ## A healthy hook -/

/-- What a healthy hook has in memory. -/
structure Hook.Mirrors (h : Hook φ) (controls : List Control) (frames : List (Frame φ)) : Prop where
  cursor : h.cursor = frames.length
  writers : ∀ writer, writer ∈ h.writers ↔ writer ∈ registered controls
  distinct : h.writers.Nodup
  active : h.active = true ↔ frames ≠ []
  ended : h.ended = true ↔ Fenced frames
  commits : h.commits = commitFrames frames
  pending : ∀ p ∈ h.pending, p.transactionId ∈ begun controls ∧ p.transactionId ∉ framed frames ∧
    p.transactionId ∉ rolled controls ∧ p.before = beforeOf controls p.transactionId
  awaited : ∀ token ∈ begun controls, token ∉ framed frames → token ∉ rolled controls →
    token ∈ h.pending.map Intent.transactionId

theorem Hook.Mirrors.fresh : (Hook.fresh : Hook φ).Mirrors [] [] where
  cursor := rfl
  writers _ := Iff.rfl
  distinct := List.nodup_nil
  active := by simp [Hook.fresh]
  ended := by simp [Hook.fresh, Fenced]
  commits := rfl
  pending p hp := (List.not_mem_nil hp).elim
  awaited t ht := (List.not_mem_nil ht).elim

theorem beforeOf_self (controls : List Control) (token before : String) :
    beforeOf (controls ++ [.beforeCommit token before]) token = some before := by
  unfold beforeOf
  rw [befores_snoc]
  show Option.map _ (Keyed.find Prod.fst token (befores controls ++ [(token, before)]).reverse) =
    some before
  rw [List.reverse_concat, Keyed.find_cons, if_pos rfl]
  rfl

theorem beforeOf_other (controls : List Control) {c : Control} {token : String}
    (h : ∀ before, c ≠ .beforeCommit token before) :
    beforeOf (controls ++ [c]) token = beforeOf controls token := by
  unfold beforeOf
  rw [befores_snoc]
  cases c with
  | beforeCommit t before =>
    show Option.map _ (Keyed.find Prod.fst token (befores controls ++ [(t, before)]).reverse) = _
    rw [List.reverse_concat, Keyed.find_cons, if_neg]
    rintro rfl
    exact h before rfl
  | _ => rw [show befores controls ++ Option.toList _ = befores controls from List.append_nil _]

/-- A control that says nothing of a writer or of an open transaction. -/
theorem Hook.Mirrors.control {h : Hook φ} {controls : List Control} {frames : List (Frame φ)}
    (hm : h.Mirrors controls frames) {c : Control} (hbegins : c.begins = none)
    (hregisters : c.registers = none) (hrolls : c.rollsBack = none)
    (hbefore : c.announces = none) :
    h.Mirrors (controls ++ [c]) frames := by
  have hsame : ∀ token, beforeOf (controls ++ [c]) token = beforeOf controls token := by
    intro token
    apply beforeOf_other
    rintro before rfl
    cases hbefore
  constructor
  · exact hm.cursor
  · intro writer
    rw [hm.writers, registered_snoc, hregisters]
    simp
  · exact hm.distinct
  · exact hm.active
  · exact hm.ended
  · exact hm.commits
  · intro p hp
    rw [begun_snoc, rolled_snoc, hbegins, hrolls, hsame]
    simpa using hm.pending p hp
  · intro token
    rw [begun_snoc, rolled_snoc, hbegins, hrolls]
    simpa using hm.awaited token

section Calls

variable {s : Setup φ} {h : Hook φ} {controls : List Control} {frames : List (Frame φ)}

theorem Hook.Mirrors.capturing (hm : h.Mirrors controls frames) (hactive : h.active = true)
    (hended : ¬ h.ended = true) :
    Capturing frames := ⟨hm.active.mp hactive, fun hf => hended (hm.ended.mpr hf)⟩

theorem Hook.Mirrors.awaits (hm : h.Mirrors controls frames) {token : String}
    (ht : token ∈ h.pending.map Intent.transactionId) :
    token ∈ begun controls ∧ token ∉ framed frames ∧ token ∉ rolled controls := by
  obtain ⟨p, hp, rfl⟩ := List.mem_map.mp ht
  obtain ⟨hbegun, hframed, hrolled, -⟩ := hm.pending p hp
  exact ⟨hbegun, hframed, hrolled⟩

theorem Hook.Mirrors.register (hm : h.Mirrors controls frames) (writer : String) :
    ({ h with writers := h.writers.insert writer } : Hook φ).Mirrors
      (controls ++ [.register writer]) frames := by
  have hsame : ∀ token, beforeOf (controls ++ [.register writer]) token =
      beforeOf controls token := by
    intro token
    exact beforeOf_other _ fun _ => nofun
  constructor
  · exact hm.cursor
  · intro w
    rw [List.mem_insert_iff, registered_snoc, hm.writers]
    simp [Control.registers, or_comm]
  · exact hm.distinct.insert
  · exact hm.active
  · exact hm.ended
  · exact hm.commits
  · intro p hp
    rw [begun_snoc, rolled_snoc, hsame]
    simpa [Control.begins, Control.rollsBack] using hm.pending p hp
  · intro token
    rw [begun_snoc, rolled_snoc]
    simpa [Control.begins, Control.rollsBack] using hm.awaited token

theorem Hook.Mirrors.begin (hm : h.Mirrors controls frames) (hw : Written s controls frames)
    {token : String} (writer : String) (hnew : token ∉ begun controls) :
    ({ h with pending := h.pending ++ [⟨token, writer, none⟩] } : Hook φ).Mirrors
      (controls ++ [.begin token writer]) frames := by
  have hsame : ∀ t, beforeOf (controls ++ [.begin token writer]) t = beforeOf controls t := by
    intro t
    exact beforeOf_other _ fun _ => nofun
  have hunsaid : beforeOf controls token = none := by
    unfold beforeOf
    rw [Option.map_eq_none_iff, Keyed.find_none]
    rintro a ha rfl
    exact hnew (hw.announced.2 a (List.mem_reverse.mp ha))
  constructor
  · exact hm.cursor
  · intro w
    rw [hm.writers, registered_snoc]
    simp [Control.registers]
  · exact hm.distinct
  · exact hm.active
  · exact hm.ended
  · exact hm.commits
  · intro p hp
    rw [begun_snoc, rolled_snoc, hsame]
    rcases List.mem_append.mp hp with hp | hp
    · obtain ⟨hbegun, hrest⟩ := hm.pending p hp
      exact ⟨List.mem_append_left _ hbegun, by simpa [Control.rollsBack] using hrest⟩
    · obtain rfl := List.mem_singleton.mp hp
      refine ⟨List.mem_append_right _ (List.mem_singleton_self _),
        fun hf => hnew (hw.framed_begun.2 token hf).1, fun hr => ?_, hunsaid.symm⟩
      exact hnew (hw.announced.1 token (by simpa [Control.rollsBack] using hr))
  · intro t ht hframed hrolled
    rw [begun_snoc] at ht
    rw [rolled_snoc] at hrolled
    rw [List.map_append]
    rcases List.mem_append.mp ht with ht | ht
    · exact List.mem_append_left _
        (hm.awaited t ht hframed (by simpa [Control.rollsBack] using hrolled))
    · obtain rfl := List.mem_singleton.mp ht
      exact List.mem_append_right _ (List.mem_singleton_self _)

theorem setBefore_ids (token before : String) (pending : List Intent) :
    (setBefore token before pending).map Intent.transactionId = pending.map Intent.transactionId :=
  Keyed.map_update Intent.transactionId Intent.transactionId (k := token)
    (f := fun p => { p with before := some before }) (fun _ => rfl) pending

theorem Hook.Mirrors.announce (hm : h.Mirrors controls frames) (token before : String) :
    ({ h with pending := setBefore token before h.pending } : Hook φ).Mirrors
      (controls ++ [.beforeCommit token before]) frames := by
  constructor
  · exact hm.cursor
  · intro w
    rw [hm.writers, registered_snoc]
    simp [Control.registers]
  · exact hm.distinct
  · exact hm.active
  · exact hm.ended
  · exact hm.commits
  · intro p hp
    rw [begun_snoc, rolled_snoc]
    rcases (Keyed.mem_update Intent.transactionId).mp hp with ⟨q, hq, rfl, rfl⟩ | ⟨hp, hne⟩
    · obtain ⟨hbegun, hframed, hrolled, -⟩ := hm.pending q hq
      rw [beforeOf_self]
      exact ⟨List.mem_append_left _ hbegun, hframed, by simpa [Control.rollsBack] using hrolled, rfl⟩
    · rw [beforeOf_other]
      · simpa [Control.begins, Control.rollsBack] using hm.pending p hp
      · rintro b heq
        injection heq with htoken
        exact hne htoken.symm
  · intro t
    rw [begun_snoc, rolled_snoc, setBefore_ids]
    simpa [Control.begins, Control.rollsBack] using hm.awaited t

/-- A transaction that is rolled back, or told and then acknowledged. -/
theorem Hook.Mirrors.forget (hm : h.Mirrors controls frames) (token : String) :
    (h.forget token).Mirrors (controls ++ [.rollbackAck token]) frames := by
  have hsame : ∀ t, beforeOf (controls ++ [.rollbackAck token]) t = beforeOf controls t := by
    intro t
    exact beforeOf_other _ fun _ => nofun
  constructor
  · exact hm.cursor
  · intro w
    rw [show (h.forget token).writers = h.writers from rfl, hm.writers, registered_snoc]
    simp [Control.registers]
  · exact hm.distinct
  · exact hm.active
  · exact hm.ended
  · exact hm.commits
  · intro p hp
    obtain ⟨hp, hne⟩ := List.mem_filter.mp hp
    obtain ⟨hbegun, hframed, hrolled, hbefore⟩ := hm.pending p hp
    rw [begun_snoc, rolled_snoc, hsame]
    refine ⟨List.mem_append_left _ hbegun, hframed, fun hr => ?_, hbefore⟩
    rcases List.mem_append.mp hr with hr | hr
    · exact hrolled hr
    · exact of_decide_eq_true hne (List.mem_singleton.mp hr)
  · intro t ht hframed hrolled
    rw [begun_snoc] at ht
    rw [rolled_snoc, List.mem_append, not_or] at hrolled
    obtain ⟨p, hp, rfl⟩ :=
    List.mem_map.mp (hm.awaited t (by simpa [Control.begins] using ht) hframed hrolled.1)
    refine List.mem_map.mpr ⟨p, List.mem_filter.mpr ⟨hp, decide_eq_true fun he => hrolled.2 ?_⟩, rfl⟩
    rw [he]
    exact List.mem_singleton_self _

/-- The first half of `committed`. -/
theorem commit_fits (hm : h.Mirrors controls frames)
    (hw : Written s controls frames) {token before : String}
    (hbefore : (Keyed.find Intent.transactionId token h.pending).bind Intent.before = some before)
    (trades decisions : List φ) (after observedUtc : String) {f : Frame φ}
    (hf : s.frame h .commit token observedUtc trades decisions
      (some before) (some after) none = .ok f) :
    s.Fits controls frames f ∧ f.kind = .commit ∧ f.transaction = ⟨token, trades, decisions⟩ ∧
    f.cursor = h.cursor + 1 := by
  obtain ⟨p, hfind, hp⟩ := Option.bind_eq_some_iff.mp hbefore
  obtain ⟨hmem, rfl⟩ := Keyed.find_some _ hfind
  obtain ⟨hbegun, hframed, hrolled, hlast⟩ := hm.pending p hmem
  have hactive := hw.activated hbegun
  have hsynthetic := hw.synthetic hactive
  unfold Setup.frame Setup.signed at hf
  rw [if_pos hsynthetic] at hf
  obtain rfl := Except.ok.inj hf
  have hopen : ¬ Fenced frames := by
    intro hfenced
    rcases hw.settled hfenced _ hbegun with ht | ht
    · exact hframed ht
    · exact hrolled ht
  refine ⟨⟨hsynthetic, rfl, rfl, hm.cursor, congrArg (· + 1) hm.cursor, rfl, ?_⟩, rfl, rfl, rfl⟩
  exact ⟨⟨hactive, hopen⟩, hbegun, hframed, hrolled, rfl, hp.symm.trans hlast⟩

/-- After COMMIT and COMMIT_ACK. -/
theorem Hook.Mirrors.commit (hm : h.Mirrors controls frames) {f : Frame φ}
    (hf : s.Fits controls frames f) (hk : f.kind = .commit) (cursor : Nat) :
    (({ h with cursor := f.cursor, commits := h.commits ++ [f] } : Hook φ).forget
        f.transactionId).Mirrors
      (controls ++ [.commitAck f.transactionId cursor]) (frames ++ [f]) := by
  have hbefore : ∀ t, beforeOf (controls ++ [.commitAck f.transactionId cursor]) t =
      beforeOf controls t := by
    intro t
    exact beforeOf_other _ fun _ => nofun
  have hkind := hf.kind
  rw [hk] at hkind
  constructor
  · rw [List.length_append, List.length_singleton]
    exact hf.cursor
  · intro w
    rw [registered_snoc]
    simpa [Control.registers, Hook.forget] using hm.writers w
  · exact hm.distinct
  · exact iff_of_true (hm.active.mpr hkind.1.1) (by simp)
  · rw [fenced_snoc, hk]
    simpa [Hook.forget] using hm.ended
  · rw [commitFrames_snoc, if_pos hk, ← hm.commits]
    rfl
  · intro p hp
    obtain ⟨hp, hne⟩ := List.mem_filter.mp hp
    obtain ⟨hbegun, hframed, hrolled, hlast⟩ := hm.pending p hp
    rw [begun_snoc, rolled_snoc, framed_snoc, if_pos hk, hbefore]
    refine ⟨List.mem_append_left _ hbegun, fun ht => ?_,
      by simpa [Control.rollsBack] using hrolled, hlast⟩
    rcases List.mem_append.mp ht with ht | ht
    · exact hframed ht
    · exact of_decide_eq_true hne (List.mem_singleton.mp ht)
  · intro t ht hframed hrolled
    rw [begun_snoc] at ht
    rw [framed_snoc, if_pos hk, List.mem_append, not_or] at hframed
    rw [rolled_snoc] at hrolled
    obtain ⟨p, hp, rfl⟩ :=
      List.mem_map.mp (hm.awaited t (by simpa [Control.begins] using ht) hframed.1
      (by simpa [Control.rollsBack] using hrolled))
    refine List.mem_map.mpr ⟨p, List.mem_filter.mpr ⟨hp, decide_eq_true fun he => hframed.2 ?_⟩, rfl⟩
    rw [he]
    exact List.mem_singleton_self _

theorem Hook.Mirrors.activate (hm : h.Mirrors controls []) {f : Frame φ} (hf : s.Fits controls [] f)
    (hk : f.kind = .activation) :
    ({ h with cursor := f.cursor, active := true } : Hook φ).Mirrors controls [f] := by
  have hsame : framed [f] = framed ([] : List (Frame φ)) := by
    have hsnoc := framed_snoc [] f
    rwa [hk, if_neg (by decide), List.append_nil, List.nil_append] at hsnoc
  have hended := hm.ended
  constructor
  · exact hf.cursor
  · exact hm.writers
  · exact hm.distinct
  · exact iff_of_true rfl (List.cons_ne_nil _ _)
  · rw [hended]
    simp [Fenced, hk]
  · rw [show h.commits = commitFrames [] from hm.commits]
    simp [commitFrames, hk]
  · rw [hsame]
    exact hm.pending
  · rw [hsame]
    exact hm.awaited

/-- `sorted(writers)` once both are enrolled. -/
theorem sorted_writers {writers : List String} (hn : writers.Nodup)
    (h : ∀ w, w ∈ writers ↔ w ∈ sourceWriters) (cursor : Nat) :
    drainFence writers cursor = drainFence sourceWriters cursor := by
  have hperm : writers.Perm sourceWriters := (List.perm_ext_iff_of_nodup hn (by decide)).mpr h
  unfold drainFence
  congr 1
  refine List.Perm.eq_of_pairwise (fun a b _ _ => le_antisymm) (List.pairwise_insertionSort _ _)
    (List.pairwise_insertionSort _ _) ?_
  exact (List.perm_insertionSort _ _).trans (hperm.trans (List.perm_insertionSort _ _).symm)

theorem Hook.Mirrors.enrolled (hm : h.Mirrors controls frames) (hw : Written s controls frames)
    (hactive : frames ≠ []) (cursor : Nat) :
    drainFence h.writers cursor = drainFence sourceWriters cursor := by
  refine sorted_writers hm.distinct (fun w => ?_) cursor
  rw [hm.writers]
  exact ⟨hw.writers w, hw.enrolled hactive w⟩

/-- After END_FENCE and OWNER_STOP. -/
theorem Hook.Mirrors.fence (hm : h.Mirrors controls frames) {f : Frame φ}
    (hf : s.Fits controls frames f) (hk : f.kind = .endFence) (cursor : Nat) :
    ({ h with cursor := f.cursor, ended := true } : Hook φ).Mirrors
      (controls ++ [.ownerStop cursor]) (frames ++ [f]) := by
  have hsame : framed (frames ++ [f]) = framed frames := by
    rw [framed_snoc, hk, if_neg (by decide), List.append_nil]
  have hstop := hm.control (c := .ownerStop cursor) rfl rfl rfl rfl
  have hkind := hf.kind
  rw [hk] at hkind
  constructor
  · rw [List.length_append, List.length_singleton]
    exact hf.cursor
  · exact hstop.writers
  · exact hm.distinct
  · exact iff_of_true (hm.active.mpr hkind.1.1) (by simp)
  · exact iff_of_true rfl ((fenced_snoc frames f).mpr (.inr hk))
  · rw [commitFrames_snoc, hk, if_neg (by decide), List.append_nil]
    exact hm.commits
  · rw [hsame]
    exact hstop.pending
  · rw [hsame]
    exact hstop.awaited

end Calls

/-! ## A call -/

/-- What the database knows of what is told it. -/
def Database.Bears (db : Database φ) : Entry φ → Prop
  | .control line => ∀ token, line.control = .rollbackAck token → token ∈ db.rolledBack
  | .frame f => f.kind = .commit → f.transaction ∈ db.committed

def Entry.Fits (s : Setup φ) (controls : List Control) (frames : List (Frame φ)) : Entry φ → Prop
  | .control line => line.control.Fits controls frames
  | .frame f => s.Fits controls frames f

def Entry.controls (controls : List Control) : Entry φ → List Control
  | .control line => controls ++ [line.control]
  | .frame _ => controls

def Entry.frames (frames : List (Frame φ)) : Entry φ → List (Frame φ)
  | .control _ => frames
  | .frame f => frames ++ [f]

/-- Each append finds what it is to find, and after the last the hook knows what the files say. -/
def Setup.Lawful (s : Setup φ) (db : Database φ) :
    List (Act φ) → Hook φ → List Control → List (Frame φ) → Prop
  | [], h, controls, frames => h.Mirrors controls frames
  | a :: rest, h, controls, frames => (a.entry h).Fits s controls frames ∧ db.Bears (a.entry h) ∧
      s.Lawful db rest (a.next h) ((a.entry h).controls controls) ((a.entry h).frames frames)

theorem bears_control (db : Database φ) (observedUtc : String) {c : Control}
    (h : c.rollsBack = none) : db.Bears (control observedUtc c) := by
  intro token hc
  rw [show c = .rollbackAck token from hc] at h
  cases h

theorem bears_frame (db : Database φ) {f : Frame φ} {k : FrameKind} (hk : f.kind = k)
    (hne : k ≠ .commit) : db.Bears (.frame f) :=
  fun hc => absurd (hk.symm.trans hc) hne

section Acts

variable {s : Setup φ} {w : Driver φ} {h : Hook φ} {controls : List Control}
  {frames : List (Frame φ)} {acts : List (Act φ)}

theorem registerWriter_lawful (db : Database φ) (hm : h.Mirrors controls frames)
    {writer observedUtc : String}
    (hacts : h.registerWriter writer observedUtc = .ok (some acts)) :
    s.Lawful db acts h controls frames := by
  unfold Hook.registerWriter at hacts
  simp only [bind_ok_iff, raiseIf_ok_iff, Except.ok.injEq,
    Option.some.injEq, not_or, not_not] at hacts
  obtain ⟨-, ⟨-, hactive, hwriter⟩, rfl⟩ := hacts
  have hnone : frames = [] := by
    by_contra hne
    exact hactive (hm.active.mpr hne)
  exact ⟨⟨hwriter, hnone⟩, bears_control db _ rfl, hm.register writer⟩

theorem activate_lawful (db : Database φ) (hm : h.Mirrors controls frames)
    {now transactionId observedUtc : String}
    (hacts : s.activate h now transactionId observedUtc = .ok (some acts)) :
    s.Lawful db acts h controls frames := by
  unfold Setup.activate at hacts
  simp only [bind_ok_iff, raiseIf_ok_iff, not_or, not_not] at hacts
  obtain ⟨-, hsynthetic, -, ⟨hactive, henrolled⟩, late, -, -, -, hacts⟩ := hacts
  split at hacts
  · obtain ⟨f, hf, hacts⟩ := bind_ok_iff.mp hacts
    obtain rfl := Option.some.inj (Except.ok.inj hacts)
    unfold Setup.frame Setup.signed at hf
    rw [if_pos hsynthetic] at hf
    have hnone : frames = [] := by
      by_contra hne
      exact hactive (hm.active.mpr hne)
    subst hnone
    have hwriters : ∀ writer ∈ sourceWriters, writer ∈ registered controls := by
      intro writer hw
      rw [← hm.writers, ← List.mem_toFinset, henrolled, List.mem_toFinset]
      exact hw
    obtain rfl := Except.ok.inj hf
    refine ⟨⟨hsynthetic, rfl, rfl, hm.cursor, congrArg (· + 1) hm.cursor, rfl, ⟨rfl, hwriters⟩⟩,
      bears_frame (k := .activation) db rfl (by decide), ?_⟩
    exact hm.activate ⟨hsynthetic, rfl, rfl, hm.cursor,
      congrArg (· + 1) hm.cursor, rfl, ⟨rfl, hwriters⟩⟩ rfl
  · cases hacts

theorem begin_lawful (db : Database φ) (hm : h.Mirrors controls frames)
    (hw : Written s controls frames) {writer token observedUtc : String}
    (hnew : token ∉ begun controls) (hacts : h.begin writer token observedUtc = .ok (some acts)) :
    s.Lawful db acts h controls frames := by
  unfold Hook.begin at hacts
  simp only [bind_ok_iff, raiseIf_ok_iff, Except.ok.injEq,
    Option.some.injEq, not_or, not_not] at hacts
  obtain ⟨-, ⟨-, hactive, hended, hwriter⟩, rfl⟩ := hacts
  have hcapturing := hm.capturing (Bool.eq_true_of_not_eq_false hactive) hended
  exact ⟨⟨hnew, (hm.writers writer).mp hwriter, hcapturing⟩,
    bears_control db _ rfl, hm.begin hw writer hnew⟩

theorem beforeCommit_lawful (db : Database φ) (hm : h.Mirrors controls frames)
    {token before observedUtc : String}
    (hacts : h.beforeCommit token before observedUtc = .ok (some acts)) :
    s.Lawful db acts h controls frames := by
  unfold Hook.beforeCommit at hacts
  simp only [bind_ok_iff, raiseIf_ok_iff, Except.ok.injEq,
    Option.some.injEq, not_or, not_not] at hacts
  obtain ⟨-, ⟨-, htoken⟩, rfl⟩ := hacts
  exact ⟨hm.awaits htoken, bears_control db _ rfl, hm.announce token before⟩

theorem rolledBack_lawful {db : Database φ} (hm : h.Mirrors controls frames)
    {token observedUtc : String} (hrolled : token ∈ db.rolledBack)
    (hacts : h.rolledBack token observedUtc = .ok (some acts)) :
    s.Lawful db acts h controls frames := by
  unfold Hook.rolledBack at hacts
  simp only [bind_ok_iff, raiseIf_ok_iff, Except.ok.injEq,
    Option.some.injEq, not_or, not_not] at hacts
  obtain ⟨-, ⟨-, htoken⟩, rfl⟩ := hacts
  refine ⟨hm.awaits htoken, fun t he => ?_, hm.forget token⟩
  injection he with he
  exact he ▸ hrolled

theorem committed_lawful [DecidableEq φ] {db : Database φ} (hm : h.Mirrors controls frames)
    (hw : Written s controls frames) {token : String} {trades decisions : List φ}
    {after observedUtc ackUtc : String} (hcommitted : ⟨token, trades, decisions⟩ ∈ db.committed)
    (hacts : s.committed h token trades decisions after observedUtc ackUtc = .ok (some acts)) :
    s.Lawful db acts h controls frames := by
  unfold Setup.committed at hacts
  split at hacts
  · split at hacts
    · next old hold =>
      simp only [bind_ok_iff, Except.ok.injEq, Option.some.injEq] at hacts
      obtain ⟨-, -, rfl⟩ := hacts
      exact hm
    · split at hacts
      · cases hacts
      · next before hbefore =>
        simp only [bind_ok_iff, Except.ok.injEq, Option.some.injEq] at hacts
        obtain ⟨f, hf, rfl⟩ := hacts
        obtain ⟨hfits, hk, htransaction, hcursor⟩ :=
          commit_fits hm hw hbefore trades decisions after observedUtc hf
        obtain rfl : f.transactionId = token := congrArg Transaction.transactionId htransaction
        have hkind := hfits.kind
        rw [hk] at hkind
        refine ⟨hfits, fun _ => htransaction ▸ hcommitted, ?_,
          bears_control db _ rfl, hm.commit hfits hk _⟩
        refine ⟨⟨f, List.mem_append_right _ (List.mem_singleton_self _), hk, rfl, rfl⟩,
          fun hack => ?_, ?_⟩
        · obtain ⟨a, ha, he⟩ := List.mem_map.mp hack
          exact hkind.2.2.1 (he ▸ hw.acknowledged a ha)
        · show ¬ Fenced (frames ++ [f])
          rw [fenced_snoc, hk]
          rintro (hfenced | he)
          · exact hfits.open hfenced
          · cases he
  · cases hacts

theorem endFence_lawful (db : Database φ) (hm : h.Mirrors controls frames)
    (hw : Written s controls frames) {now transactionId observedUtc stopUtc : String}
    (hacts : s.endFence h now transactionId observedUtc stopUtc = .ok (some acts)) :
    s.Lawful db acts h controls frames := by
  unfold Setup.endFence at hacts
  simp only [bind_ok_iff, raiseIf_ok_iff, not_or, not_not,
    Except.ok.injEq, Option.some.injEq] at hacts
  obtain ⟨-, ⟨-, hactive, hended, hnone⟩, reached, -, -, -, f, hf, rfl⟩ := hacts
  have hcapturing := hm.capturing (Bool.eq_true_of_not_eq_false hactive) hended
  have hsynthetic := hw.synthetic hcapturing.1
  unfold Setup.frame Setup.signed at hf
  rw [if_pos hsynthetic, hm.enrolled hw hcapturing.1, hm.cursor] at hf
  have hsettled : ∀ token ∈ begun controls, token ∈ framed frames ∨ token ∈ rolled controls := by
    intro token ht
    by_contra hopen
    rw [not_or] at hopen
    have hawaited := hm.awaited token ht hopen.1 hopen.2
    rw [hnone] at hawaited
    exact List.not_mem_nil hawaited
  have hfits : s.Fits controls frames f ∧ f.kind = .endFence := by
    obtain rfl := Except.ok.inj hf
    exact ⟨⟨hsynthetic, rfl, rfl, rfl, rfl, rfl, hcapturing, hsettled, rfl⟩, rfl⟩
  have hfenced : Fenced (frames ++ [f]) := (fenced_snoc frames f).mpr (.inr hfits.2)
  refine ⟨hfits.1, bears_frame db hfits.2 (by decide),
    ⟨hfenced, ?_, fun k hk => hcapturing.2 (hw.stopped hk)⟩,
    bears_control db _ rfl, hm.fence hfits.1 hfits.2 _⟩
  show f.cursor = (frames ++ [f]).length
  rw [hfits.1.cursor, List.length_append, List.length_singleton]

/-- Only a healthy hook appends. -/
theorem acts_healthy [DecidableEq φ] {c : Call φ}
    (hacts : s.acts h c = .ok (some acts)) : h.healthy = true := by
  cases c with
  | registerWriter writer observedUtc =>
    unfold Setup.acts Hook.registerWriter at hacts
    simp only [bind_ok_iff, raiseIf_ok_iff, not_or] at hacts
    obtain ⟨-, ⟨hhealthy, -⟩, -⟩ := hacts
    exact Bool.eq_true_of_not_eq_false hhealthy
  | activate now transactionId observedUtc =>
    unfold Setup.acts Setup.activate at hacts
    simp only [bind_ok_iff, raiseIf_ok_iff] at hacts
    obtain ⟨-, -, -, -, -, -, -, -, hacts⟩ := hacts
    split at hacts
    · assumption
    · cases hacts
  | begin writer token observedUtc =>
    unfold Setup.acts Hook.begin at hacts
    simp only [bind_ok_iff, raiseIf_ok_iff, not_or] at hacts
    obtain ⟨-, ⟨hhealthy, -⟩, -⟩ := hacts
    exact Bool.eq_true_of_not_eq_false hhealthy
  | beforeCommit token before observedUtc =>
    unfold Setup.acts Hook.beforeCommit at hacts
    simp only [bind_ok_iff, raiseIf_ok_iff, not_or] at hacts
    obtain ⟨-, ⟨hhealthy, -⟩, -⟩ := hacts
    exact Bool.eq_true_of_not_eq_false hhealthy
  | committed token trades decisions after observedUtc ackUtc =>
    have hacts : s.committed h token trades decisions after observedUtc ackUtc =
      .ok (some acts) := hacts
    unfold Setup.committed at hacts
    split at hacts
    · assumption
    · cases hacts
  | rolledBack token observedUtc =>
    unfold Setup.acts Hook.rolledBack at hacts
    simp only [bind_ok_iff, raiseIf_ok_iff, not_or] at hacts
    obtain ⟨-, ⟨hhealthy, -⟩, -⟩ := hacts
    exact Bool.eq_true_of_not_eq_false hhealthy
  | endFence now transactionId observedUtc stopUtc =>
    unfold Setup.acts Setup.endFence at hacts
    simp only [bind_ok_iff, raiseIf_ok_iff, not_or] at hacts
    obtain ⟨-, ⟨hhealthy, -⟩, -⟩ := hacts
    exact Bool.eq_true_of_not_eq_false hhealthy

theorem acts_lawful [DecidableEq φ] (hm : h.Mirrors controls frames)
    (hw : Written s controls frames) {c : Call φ} (hobeys : w.Obeys c = true)
    (hcontrols : begun (w.files.controls.lines.map ControlLine.control) = begun controls)
    (hacts : s.acts h c = .ok (some acts)) :
    s.Lawful w.database acts h controls frames := by
  cases c with
  | registerWriter writer observedUtc => exact registerWriter_lawful _ hm hacts
  | activate now transactionId observedUtc => exact activate_lawful _ hm hacts
  | begin writer token observedUtc =>
    have hnew := of_decide_eq_true hobeys
    rw [hcontrols] at hnew
    exact begin_lawful _ hm hw hnew hacts
  | beforeCommit token before observedUtc => exact beforeCommit_lawful _ hm hacts
  | committed token trades decisions after observedUtc ackUtc =>
    exact committed_lawful hm hw (of_decide_eq_true hobeys) hacts
  | rolledBack token observedUtc => exact rolledBack_lawful hm (of_decide_eq_true hobeys) hacts
  | endFence now transactionId observedUtc stopUtc => exact endFence_lawful _ hm hw hacts

end Acts

/-! ## The files under a call -/

/-- What the database has to do with the files. -/
structure Database.Knows (db : Database φ) (controls : List Control)
    (frames : List (Frame φ)) : Prop where
  begun : ∀ token ∈ db.working ++ db.committed.map Transaction.transactionId ++ db.rolledBack,
    token ∈ begun controls
  distinct : (db.working ++ db.committed.map Transaction.transactionId ++ db.rolledBack).Nodup
  told : ∀ t ∈ told frames, t ∈ db.committed
  rolled : ∀ token ∈ rolled controls, token ∈ db.rolledBack

/-- A file that is not there has nothing in it. -/
def Ndjson.Sound {ρ : Type} (f : Ndjson ρ) : Prop :=
  f.present = false → f.lines = [] ∧ f.torn = false

structure Keeps (s : Setup φ) (db : Database φ) (d : Files φ) (controls : List Control)
    (frames : List (Frame φ)) : Prop where
  lines : d.controls.lines.map ControlLine.control = .ownerStart s.bindingSha256 :: controls ∨
    d.controls.lines = [] ∧ controls = [] ∧ frames = []
  told : d.frames.lines = frames
  sound : d.controls.Sound ∧ d.frames.Sound
  written : Written s controls frames
  knows : db.Knows controls frames

/-- Files a healthy hook appends to. -/
structure Files.Open (d : Files φ) : Prop where
  started : d.controls.lines ≠ []
  controls : d.controls.torn = false
  frames : d.frames.torn = false

theorem Ndjson.Sound.write {ρ : Type} {f : Ndjson ρ} (h : f.Sound) (line : ρ) (fault : WriteFault) :
    (f.write line fault).Sound := by
  cases fault with
  | clean => exact h
  | created => exact nofun
  | torn => exact nofun
  | kept => exact nofun

theorem write_lines {ρ : Type} (f : Ndjson ρ) (line : ρ) {fault : WriteFault} (h : fault ≠ .kept) :
    (f.write line fault).lines = f.lines := by
  cases fault with
  | kept => exact absurd rfl h
  | _ => rfl

theorem write_kept {ρ : Type} {f : Ndjson ρ} (line : ρ) (h : f.torn = false) :
    f.write line .kept = ⟨true, f.lines ++ [line], false⟩ := by
  unfold Ndjson.write
  simp [h]

theorem Written.entry {s : Setup φ} {controls : List Control} {frames : List (Frame φ)}
    (h : Written s controls frames) {e : Entry φ}
    (he : e.Fits s controls frames) : Written s (e.controls controls) (e.frames frames) := by
  cases e with
  | control line => exact h.control line.control he
  | frame f => exact h.frame f he

theorem Database.Knows.entry {db : Database φ} {controls : List Control} {frames : List (Frame φ)}
    (h : db.Knows controls frames) {e : Entry φ}
    (he : db.Bears e) : db.Knows (e.controls controls) (e.frames frames) := by
  cases e with
  | control line =>
    refine ⟨fun token ht => ?_, h.distinct, h.told, fun token ht => ?_⟩
    · show token ∈ Observation.begun (controls ++ [line.control])
      rw [begun_snoc]
      exact List.mem_append_left _ (h.begun token ht)
    · have ht : token ∈ Observation.rolled (controls ++ [line.control]) := ht
      rw [rolled_snoc] at ht
      rcases List.mem_append.mp ht with ht | ht
      · exact h.rolled token ht
      · refine he token ?_
        cases hc : line.control with
        | rollbackAck t =>
          rw [hc] at ht
          exact congrArg Control.rollbackAck (List.mem_singleton.mp ht).symm
        | _ =>
          rw [hc] at ht
          exact (List.not_mem_nil ht).elim
  | frame f =>
    refine ⟨h.begun, h.distinct, fun t ht => ?_, h.rolled⟩
    have ht : t ∈ Observation.told (frames ++ [f]) := ht
    rw [told_snoc] at ht
    rcases List.mem_append.mp ht with ht | ht
    · exact h.told t ht
    · split at ht
      · next hk =>
        obtain rfl := List.mem_singleton.mp ht
        exact he hk
      · exact (List.not_mem_nil ht).elim

section Disk

variable {s : Setup φ} {db : Database φ} {d : Files φ}
  {controls : List Control} {frames : List (Frame φ)}

theorem Keeps.diagnose (h : Keeps s db d controls frames) (saved : Bool) :
    Keeps s db (d.diagnose saved) controls frames :=
  ⟨h.lines, h.told, h.sound, h.written, h.knows⟩

/-- An append of which no whole line is left. -/
theorem Keeps.fault (h : Keeps s db d controls frames) (e : Entry φ)
    {fault : WriteFault} (hf : fault ≠ .kept) :
    Keeps s db (d.write e fault) controls frames := by
  cases e with
  | control line =>
    refine ⟨?_, h.told, ⟨h.sound.1.write line fault, h.sound.2⟩, h.written, h.knows⟩
    show (d.controls.write line fault).lines.map _ = _ ∨
      (d.controls.write line fault).lines = [] ∧ _
    rw [write_lines _ _ hf]
    exact h.lines
  | frame f =>
    exact ⟨h.lines, (write_lines _ _ hf).trans h.told,
      ⟨h.sound.1, h.sound.2.write f fault⟩, h.written, h.knows⟩

theorem Keeps.append (h : Keeps s db d controls frames) (ho : d.Open) {e : Entry φ}
    (he : e.Fits s controls frames) (hb : db.Bears e) :
    Keeps s db (d.write e .kept) (e.controls controls) (e.frames frames) ∧
    (d.write e .kept).Open := by
  have hlines : d.controls.lines.map ControlLine.control =
      .ownerStart s.bindingSha256 :: controls := by
    rcases h.lines with hc | hc
    · exact hc
    · exact absurd hc.1 ho.started
  cases e with
  | control line =>
    have hwrite := write_kept line ho.controls
    refine ⟨⟨.inl ?_, h.told, ⟨h.sound.1.write line .kept, h.sound.2⟩, h.written.entry he,
      h.knows.entry hb⟩, ?_, ?_, ho.frames⟩
    · show (d.controls.write line .kept).lines.map _ = .ownerStart _ :: (controls ++ [line.control])
      rw [hwrite, List.map_append, hlines]
      rfl
    · show (d.controls.write line .kept).lines ≠ []
      rw [hwrite]
      simp
    · show (d.controls.write line .kept).torn = false
      rw [hwrite]
  | frame f =>
    have hwrite := write_kept f ho.frames
    refine ⟨⟨.inl hlines, ?_, ⟨h.sound.1, h.sound.2.write f .kept⟩, h.written.entry he,
      h.knows.entry hb⟩, ho.started, ho.controls, ?_⟩
    · show (d.frames.write f .kept).lines = frames ++ [f]
      rw [hwrite, h.told]
    · show (d.frames.write f .kept).torn = false
      rw [hwrite]

theorem perform_keeps (hk : Keeps s db d controls frames) (ho : d.Open)
    {acts : List (Act φ)} {h : Hook φ} (hl : s.Lawful db acts h controls frames)
    (io : List Append) :
    ∃ controls' frames', Keeps s db (perform h d acts io).2.1 controls' frames' ∧
      ((perform h d acts io).2.2 = .returned →
      (perform h d acts io).2.1.Open ∧ (perform h d acts io).1.Mirrors controls' frames') := by
  induction acts generalizing h d controls frames io with
  | nil => exact ⟨controls, frames, hk, fun _ => ⟨ho, hl⟩⟩
  | cons a rest ih =>
    obtain ⟨hfits, hbears, hrest⟩ := hl
    obtain ⟨hkeeps, hopen⟩ := hk.append ho hfits hbears
    have hfault : ∀ fault, ∃ controls' frames',
        Keeps s db (d.write (a.entry h) fault) controls' frames' := by
      intro fault
      by_cases hf : fault = .kept
      · rw [hf]
        exact ⟨_, _, hkeeps⟩
      · exact ⟨controls, frames, hk.fault _ hf⟩
    cases io with
    | nil => exact ih hkeeps hopen hrest []
    | cons x io =>
      cases x with
      | done => exact ih hkeeps hopen hrest io
      | raised fault =>
        obtain ⟨controls', frames', hleft⟩ := hfault fault
        exact ⟨controls', frames', hleft, nofun⟩
      | died fault =>
        obtain ⟨controls', frames', hleft⟩ := hfault fault
        exact ⟨controls', frames', hleft, nofun⟩

end Disk

theorem perform_returned {h : Hook φ} {d : Files φ} {acts : List (Act φ)} {io : List Append}
    (hr : (perform h d acts io).2.2 = .returned) :
    (perform h d acts io).1 = acts.foldl (fun h a => a.next h) h := by
  induction acts generalizing h d io with
  | nil => rfl
  | cons a rest ih =>
    cases io with
    | nil => exact ih hr
    | cons x io =>
      cases x with
      | done => exact ih hr
      | raised fault => cases hr
      | died fault => cases hr

end Polycopy.Observation
