import Mathlib.Data.List.Induction
import Polycopy.Shadow.Told

/-!
# When a restart resumes

`_restore` checks every line of both files against those before it. Over any run of the
hook's own processes only six things can go wrong:

    a file that ends in a part of a line, or no OWNER_START
    a failure latch
    a transaction begun and neither told nor rolled back
    two BEFORE_COMMITs of one transaction
    a clock that went back between BEFORE_COMMIT and COMMIT, or before the end of the window
    a binding that is not synthetic

* `restart_exact`: a restart resumes just when none of these is so, with what is on disk.
 * `latch_needed`: so a failure that could not leave its latch is forgotten, and the capture it
  spoiled is fenced.
-/

namespace Polycopy.Observation

open Py Py.Clock Runs
open Comparison (raiseIf raiseIf_not raiseIf_pos notBefore)

variable {φ : Type}

/-! ## What stays true of a line -/

section Lasting

variable {s : Setup φ} {controls : List Control} {frames : List (Frame φ)}

/-- OWNER_STOP is the last control. -/
theorem Written.unstopped (h : Written s controls frames) {c : Control}
    (hc : c.Fits controls frames) :
    ∀ k, .ownerStop k ∉ controls := by
  intro k hk
  have hfenced := h.stopped hk
  have hended : ∀ token, token ∈ begun controls → token ∉ framed frames →
      token ∉ rolled controls → False := by
    intro token ht hframed hrolled
    rcases h.settled hfenced token ht with hf | hr
    · exact hframed hf
    · exact hrolled hr
  cases c with
  | register writer =>
    rw [hc.2] at hfenced
    obtain ⟨f, hf, -⟩ := hfenced
    exact List.not_mem_nil hf
  | begin token writer => exact hc.2.2.2 hfenced
  | beforeCommit token before => exact hended token hc.1 hc.2.1 hc.2.2
  | commitAck token cursor => exact hc.2.2 hfenced
  | rollbackAck token => exact hended token hc.1 hc.2.1 hc.2.2
  | ownerStop cursor => exact hc.2.2 k hk
  | ownerStart binding => exact hc
  | other kind => exact hc

theorem Written.stop_last (h : Written s controls frames) {k : Nat}
    (hk : Control.ownerStop k ∈ controls) :
    controls.getLast? = some (.ownerStop frames.length) := by
  induction h with
  | start => exact (List.not_mem_nil hk).elim
  | @control controls frames c hw hc ih =>
    rcases List.mem_append.mp hk with hmem | hmem
    · exact absurd hmem (hw.unstopped hc k)
    · obtain rfl := List.mem_singleton.mp hmem
      rw [List.getLast?_concat, hc.2.1]
  | frame f hw hf _ => exact absurd (hw.stopped hk) hf.open

theorem beforeOf_mem {token before : String} (h : beforeOf controls token = some before) :
    (token, before) ∈ befores controls := by
  unfold beforeOf at h
  obtain ⟨a, hfind, rfl⟩ := Option.map_eq_some_iff.mp h
  obtain ⟨ha, rfl⟩ := Keyed.find_some _ hfind
  exact List.mem_reverse.mp ha

theorem beforeOf_once (hn : ((befores controls).map Prod.fst).Nodup) {token before : String}
    (h : (token, before) ∈ befores controls) :
    beforeOf controls token = some before := by
  unfold beforeOf
  have hn' : ((befores controls).reverse.map Prod.fst).Nodup := by
    rw [List.map_reverse]
    exact List.nodup_reverse.mpr hn
  rw [show token = Prod.fst (token, before) from
    rfl, Keyed.find_of_mem Prod.fst hn' (List.mem_reverse.mpr h)]
  rfl

/-- What a commit frame finds in the controls, then and ever after. -/
structure Frame.Lasts (controls : List Control) (f : Frame φ) : Prop where
  begun : f.transactionId ∈ begun controls
  rolled : f.transactionId ∉ rolled controls
  before : ∃ before, f.commitBeforeUtc = some before ∧ (f.transactionId, before) ∈ befores controls
  ack : ∀ a ∈ acks controls, a.1 = f.transactionId → a.2 = f.cursor

theorem mem_commitFrames {f : Frame φ} : f ∈ commitFrames frames ↔
    f ∈ frames ∧ f.kind = .commit := by
  unfold commitFrames
  rw [List.mem_filter, decide_eq_true_eq]

theorem Written.lasts (h : Written s controls frames) :
    ∀ f ∈ frames, f.kind = .commit → f.Lasts controls := by
  induction h with
  | start => exact fun f hf => (List.not_mem_nil hf).elim
  | @control controls frames c hw hc ih =>
    intro f hf hk
    have hmem : f ∈ commitFrames frames := mem_commitFrames.mpr ⟨hf, hk⟩
    have hframed : f.transactionId ∈ framed frames := List.mem_map_of_mem hmem
    obtain ⟨hbegun, hrolled, ⟨before, hbefore, hannounced⟩, hack⟩ := ih f hf hk
    constructor
    · rw [begun_snoc]
      exact List.mem_append_left _ hbegun
    · rw [rolled_snoc]
      intro hr
      rcases List.mem_append.mp hr with hr | hr
      · exact hrolled hr
      · cases c with
        | rollbackAck token =>
          obtain rfl := List.mem_singleton.mp hr
          exact hc.2.1 hframed
        | _ => exact List.not_mem_nil hr
    · rw [befores_snoc]
      exact ⟨before, hbefore, List.mem_append_left _ hannounced⟩
    · intro a ha hid
      rw [acks_snoc] at ha
      rcases List.mem_append.mp ha with ha | ha
      · exact hack a ha hid
      · cases c with
        | commitAck token cursor =>
          obtain rfl := List.mem_singleton.mp ha
          obtain ⟨⟨g, hg, hgk, hgid, rfl⟩, -⟩ := hc
          have hsame : g = f := Keyed.eq_of_key Frame.transactionId hw.framed_begun.1
            (mem_commitFrames.mpr ⟨hg, hgk⟩) hmem (hgid.trans hid)
          rw [hsame]
        | _ => exact (List.not_mem_nil ha).elim
  | @frame controls frames f hw hf ih =>
    intro g hg hk
    rcases List.mem_append.mp hg with hg | hg
    · exact ih g hg hk
    · obtain rfl := List.mem_singleton.mp hg
      have hkind := hf.kind
      rw [hk] at hkind
      obtain ⟨-, hbegun, hframed, hrolled, hsome, hlast⟩ := hkind
      obtain ⟨before, hbefore⟩ := Option.isSome_iff_exists.mp hsome
      refine ⟨hbegun, hrolled, ⟨before, hbefore, beforeOf_mem (hlast.symm.trans hbefore)⟩,
        fun a ha hid => ?_⟩
      exact absurd (hid ▸ hw.acknowledged a ha) hframed

/-- What a frame finds in the frames before it. -/
theorem Written.placed (h : Written s controls frames) {pre post : List (Frame φ)} {f : Frame φ}
    (he : frames = pre ++ f :: post) :
    ∃ controls', s.Fits controls' pre f := by
  induction h generalizing pre post with
  | start => exact absurd he.symm (List.append_ne_nil_of_right_ne_nil _ (List.cons_ne_nil _ _))
  | control c _ _ ih => exact ih he
  | @frame controls frames g _ hg ih =>
    rcases List.eq_nil_or_concat post with rfl | ⟨post', x, rfl⟩
    · obtain ⟨rfl, hlast⟩ := List.append_inj' he rfl
      obtain rfl := List.singleton_inj.mp hlast
      exact ⟨controls, hg⟩
    · rw [List.concat_eq_append, ← List.cons_append, ← List.append_assoc] at he
      exact ih (List.append_inj' he rfl).1

end Lasting

/-! ## Reading the controls -/

section Reading

theorem bind_of_ok {ε α β : Type} {x : Except ε α} {a : α} {k : α → Except ε β}
    (h : x = .ok a) : (x >>= k) = k a := by
  rw [h]
  rfl

variable {s : Setup φ} {controls : List Control} {frames : List (Frame φ)} {l : Ledger}

theorem Ledger.Of.finds (hof : l.Of controls) {token : String} (ht : token ∈ begun controls) :
    (Keyed.find Intent.transactionId token l.pending).map Intent.before =
      some (beforeOf controls token) := by
  rw [← hof.ids] at ht
  obtain ⟨p, hp, rfl⟩ := List.mem_map.mp ht
  cases hfind : Keyed.find Intent.transactionId p.transactionId l.pending with
  | none => exact absurd rfl ((Keyed.find_none _).mp hfind p hp)
  | some q =>
    obtain ⟨hq, hid⟩ := Keyed.find_some _ hfind
    rw [Option.map_some, hof.before q hq, hid]

theorem Ledger.Of.reads (hof : l.Of controls) (hw : Written s controls frames) {c : Control}
    (hc : c.Fits controls frames)
    (honce : ((befores (controls ++ [c])).map Prod.fst).Nodup) : ∃ l', l.read c = .ok l' := by
  have hstopped : ¬ l.stopped = true := by
    intro hs
    obtain ⟨k, hk⟩ := hof.stopped.mp hs
    exact hw.unstopped hc k hk
  unfold Ledger.read
  rw [bind_of_ok (raiseIf_not hstopped)]
  cases c with
  | register writer =>
    dsimp only
    rw [bind_of_ok (raiseIf_not (not_not.mpr hc.1))]
    exact ⟨_, rfl⟩
  | begin token writer =>
    have hfree : ¬ (token ∈ l.pending.map Intent.transactionId ∨ writer ∉ l.writers) := by
      rw [hof.ids, hof.writers, not_or, not_not]
      exact ⟨hc.1, hc.2.1⟩
    dsimp only
    rw [bind_of_ok (raiseIf_not hfree)]
    exact ⟨_, rfl⟩
  | beforeCommit token before =>
    have hunsaid : beforeOf controls token = none := by
      rw [beforeOf_none]
      rw [befores_snoc, List.map_append] at honce
      intro ht
      exact (List.nodup_append.mp honce).2.2 token ht token (List.mem_singleton_self _) rfl
    have hfree : ¬ (Keyed.find Intent.transactionId token l.pending).map
        Intent.before ≠ some none := by
      rw [hof.finds hc.1, hunsaid, not_not]
    dsimp only
    rw [bind_of_ok (raiseIf_not hfree)]
    exact ⟨_, rfl⟩
  | commitAck token cursor =>
    obtain ⟨⟨f, hf, hk, rfl, -⟩, hnew, -⟩ := hc
    obtain ⟨hbegun, hrolled⟩ :=
      hw.framed_begun.2 f.transactionId (List.mem_map_of_mem (mem_commitFrames.mpr ⟨hf, hk⟩))
    have hfree : ¬ (f.transactionId ∉ l.pending.map Intent.transactionId ∨
        f.transactionId ∈ l.ack.map Prod.fst ∨ f.transactionId ∈ l.rolled) := by
      rw [hof.ids, hof.ack, hof.rolled, not_or, not_or, not_not]
      exact ⟨hbegun, hnew, hrolled⟩
    dsimp only
    rw [bind_of_ok (raiseIf_not hfree)]
    exact ⟨_, rfl⟩
  | rollbackAck token =>
    have hunacknowledged : token ∉ (acks controls).map Prod.fst := by
      intro ha
      obtain ⟨a, hack, rfl⟩ := List.mem_map.mp ha
      exact hc.2.1 (hw.acknowledged a hack)
    have hfree : ¬ (token ∉ l.pending.map Intent.transactionId ∨
        token ∈ l.ack.map Prod.fst ∨ token ∈ l.rolled) := by
      rw [hof.ids, hof.ack, hof.rolled, not_or, not_or, not_not]
      exact ⟨hc.1, hunacknowledged, hc.2.2⟩
    dsimp only
    rw [bind_of_ok (raiseIf_not hfree)]
    exact ⟨_, rfl⟩
  | ownerStop cursor => exact ⟨_, rfl⟩
  | ownerStart binding => exact hc.elim
  | other kind => exact hc.elim

theorem controls_read (hw : Written s controls frames)
    (honce : ((befores controls).map Prod.fst).Nodup) :
    ∃ l, LogFold.runFrom (fun _ (l : Ledger) c => leaves l (l.read c))
      [] .fresh controls = .ok l := by
  induction hw with
  | start => exact ⟨.fresh, rfl⟩
  | frame f _ _ ih => exact ih honce
  | @control controls frames c hw hc ih =>
    have hprefix : ((befores controls).map Prod.fst).Nodup := by
      rw [befores_snoc, List.map_append] at honce
      exact (List.nodup_append.mp honce).1
    obtain ⟨l, hl⟩ := ih hprefix
    obtain ⟨l', hr⟩ := (ledger_of hl).reads hw hc honce
    refine ⟨l', ?_⟩
    rw [LogFold.runFrom_snoc, hl]
    exact leaves_ok.mpr hr

/-! ## Reading the frames -/

theorem enrolled_toFinset {writers : List String}
    (h : ∀ w, w ∈ writers ↔ w ∈ sourceWriters) : Enrolled writers := by
  unfold Enrolled
  ext w
  rw [List.mem_toFinset, List.mem_toFinset, h w]

theorem Hook.Of.reads {pre : List (Frame φ)} {h : Hook φ} (ho : h.Of s l pre) (hof : l.Of controls)
    (honce : ((befores controls).map Prod.fst).Nodup)
    (hwriters : ∀ w, w ∈ l.writers ↔ w ∈ sourceWriters) {f : Frame φ} {controls' : List Control}
    (hfits : s.Fits controls' pre f) (hlasts : f.kind = .commit → f.Lasts controls)
    (htimely : f.Timely s.window) :
    ∃ h', s.readFrame l h f = .ok h' := by
  have hposition : ¬ (f.bindingSha256 ≠ s.bindingSha256 ∨ f.previousCursor ≠ h.cursor ∨
      f.cursor ≠ h.cursor + 1 ∨ f.version ≠ 1) := by
    rw [ho.cursor, not_or, not_or, not_or, not_not, not_not, not_not, not_not]
    exact ⟨hfits.binding, hfits.previous, hfits.cursor, hfits.version⟩
  have hsignature : s.checkSignature f = .ok () := by
    unfold Setup.checkSignature
    rw [if_pos hfits.synthetic, raiseIf_not (not_not.mpr hfits.signature)]
  have hkind := hfits.kind
  unfold Setup.readFrame
  rw [bind_of_ok (raiseIf_not hposition), bind_of_ok hsignature]
  cases hk : f.kind with
  | activation =>
    rw [hk] at hkind
    obtain rfl := hkind.1
    have hfree : ¬ (h.active = true ∨ h.cursor ≠ 0 ∨ ¬ Enrolled h.writers) := by
      rw [ho.active, ho.cursor, ho.ledger.1, not_or, not_or, not_not, not_not, not_not]
      exact ⟨rfl, rfl, enrolled_toFinset hwriters⟩
    dsimp only
    rw [bind_of_ok (raiseIf_not hfree)]
    exact ⟨_, rfl⟩
  | commit =>
    rw [hk] at hkind
    obtain ⟨hcapturing, -, hframed, -⟩ := hkind
    obtain ⟨hbegun, hrolled, ⟨before, hbefore, hannounced⟩, hack⟩ := hlasts hk
    have hfind : (Keyed.find Intent.transactionId f.transactionId h.pending).map Intent.before =
        some f.commitBeforeUtc := by
      rw [ho.ledger.2, hof.finds hbegun, beforeOf_once honce hannounced, hbefore]
    have hfree : ¬ (h.active = false ∨ h.ended = true ∨ f.transactionId ∈ l.rolled ∨
        f.transactionId ∈ h.commits.map Frame.transactionId ∨
        (Keyed.find Intent.transactionId f.transactionId h.pending).map Intent.before ≠
          some f.commitBeforeUtc) := by
      rw [ho.ended, hof.rolled, ho.commits, hfind, ho.active.mpr hcapturing.1]
      rintro (hactive | hfenced | hr | hf | hne)
      · cases hactive
      · exact hcapturing.2 hfenced
      · exact hrolled hr
      · exact hframed hf
      · exact hne rfl
    have hack' : ¬ (false = true ∨ ∃ a ∈ l.ack, a.1 = f.transactionId ∧ a.2 ≠ f.cursor) := by
      rw [hof.ack]
      rintro (hfalse | ⟨a, ha, hid, hne⟩)
      · cases hfalse
      · exact hne (hack a ha hid)
    dsimp only
    rw [bind_of_ok (raiseIf_not hfree), bind_of_ok (htimely.1 hk), bind_of_ok (raiseIf_not hack')]
    exact ⟨_, rfl⟩
  | endFence =>
    rw [hk] at hkind
    obtain ⟨hcapturing, -, hfence⟩ := hkind
    have hfree : ¬ (h.active = false ∨ h.ended = true) := by
      rw [ho.ended, ho.active.mpr hcapturing.1]
      rintro (hactive | hfenced)
      · cases hactive
      · exact hcapturing.2 hfenced
    have hsame : ¬ (true = false ∨ f.fence ≠ some (drainFence h.writers h.cursor)) := by
      rw [ho.ledger.1, ho.cursor, sorted_writers hof.distinct hwriters, hfence]
      simp
    dsimp only
    rw [bind_of_ok (raiseIf_not hfree), bind_of_ok (htimely.2 hk), bind_of_ok (raiseIf_not hsame)]
    exact ⟨_, rfl⟩
  | other kind =>
    rw [hk] at hkind
    exact hkind.elim

theorem frames_read (hw : Written s controls frames) (hof : l.Of controls)
    (honce : ((befores controls).map Prod.fst).Nodup)
    (htimely : ∀ f ∈ frames, f.Timely s.window) :
    ∃ h, LogFold.runFrom (fun _ h f => leaves h (s.readFrame l h f)) [] l.hook frames = .ok h := by
  have hread : ∀ pre post, frames = pre ++ post →
      ∃ h, LogFold.runFrom (fun _ h f => leaves h (s.readFrame l h f)) [] l.hook pre = .ok h := by
    intro pre
    induction pre using List.reverseRecOn with
    | nil => exact fun _ _ => ⟨l.hook, rfl⟩
    | append_singleton pre f ih =>
      intro post he
      rw [List.append_assoc, List.singleton_append] at he
      obtain ⟨h, hh⟩ := ih (f :: post) he
      have hmem : f ∈ frames := by
        rw [he]
        exact List.mem_append_right _ List.mem_cons_self
      have hne : frames ≠ [] := List.ne_nil_of_mem hmem
      have hwriters : ∀ w, w ∈ l.writers ↔ w ∈ sourceWriters := by
        intro w
        rw [hof.writers]
        exact ⟨hw.writers w, hw.enrolled hne w⟩
      obtain ⟨controls', hfits⟩ := hw.placed he
      obtain ⟨h', hr⟩ :=
        (hook_of hh).reads hof honce hwriters hfits (hw.lasts f hmem) (htimely f hmem)
      refine ⟨h', ?_⟩
      rw [LogFold.runFrom_snoc, hh]
      exact leaves_ok.mpr hr
  exact hread frames [] (List.append_nil _).symm

end Reading

/-! ## The theorem -/

instance (window : Py.Clock.Window) (f : Frame φ) : Decidable (f.Timely window) :=
  inferInstanceAs (Decidable (_ ∧ _))

/-- What a restart asks of the files. -/
structure Resumable (s : Setup φ) (d : Files φ) : Prop where
  synthetic : s.evidenceKind = "synthetic"
  started : d.controls.lines ≠ []
  whole : d.controls.torn = false ∧ d.frames.torn = false
  unlatched : d.health = false
  settled : ∀ token ∈ begun (d.controls.lines.map ControlLine.control),
    token ∈ framed d.frames.lines ∨ token ∈ rolled (d.controls.lines.map ControlLine.control)
  once : ((befores (d.controls.lines.map ControlLine.control)).map Prod.fst).Nodup
  timely : ∀ f ∈ d.frames.lines, f.Timely s.window

section Restart

variable {s : Setup φ} {db : Database φ} {d : Files φ}
  {controls : List Control} {frames : List (Frame φ)}

theorem Keeps.restores (hk : Keeps s db d controls frames) {h : Hook φ}
    (hr : s.restore d = .ok h) : Resumable s d := by
  obtain ⟨hopen, hm, hhealth⟩ := restore_mirrors hk hr
  obtain ⟨controls', l, h', htorn, hlines, hl, htorn', hh, -, hresume, rfl⟩ := restore_ok.mp hr
  obtain ⟨hnone, -, hsynthetic, -⟩ := resume_ok.mp hresume
  have hof := ledger_of hl
  have hread := hook_of hh
  constructor
  · rcases hsynthetic with hsynthetic | hended
    · exact hsynthetic
    · obtain ⟨f, hf, -⟩ := hread.ended.mp hended
      rw [hk.told] at hf
      exact hk.written.synthetic (List.ne_nil_of_mem hf)
  · exact hopen.started
  · exact ⟨htorn, htorn'⟩
  · exact hhealth
  · intro token ht
    have hrolled : rolled (d.controls.lines.map ControlLine.control) = rolled controls' := by
      rw [hlines]
      rfl
    have hsame : Observation.begun controls' = Observation.begun controls := by
      rw [← hk.begun, hlines]
      rfl
    rw [hk.begun] at ht
    by_contra hopen
    rw [not_or, hrolled] at hopen
    rw [← hsame, ← hof.ids, ← hread.ledger.2] at ht
    obtain ⟨p, hp, rfl⟩ := List.mem_map.mp ht
    have hkept : p ∈ (h'.settled l).pending := by
      refine List.mem_filter.mpr ⟨hp, decide_eq_true ⟨?_, ?_⟩⟩
      · rw [hof.rolled]
        exact hopen.2
      · rw [hread.commits]
        exact hopen.1
    rw [hnone] at hkept
    exact List.not_mem_nil hkept
  · rw [hlines]
    exact hof.once
  · exact hread.timely

theorem Keeps.restorable (hk : Keeps s db d controls frames) (hr : Resumable s d) :
    ∃ h, s.restore d = .ok h := by
  have hlines : d.controls.lines.map ControlLine.control =
      .ownerStart s.bindingSha256 :: controls := by
    rcases hk.lines with hc | hc
    · exact hc
    · exact absurd hc.1 hr.started
  obtain ⟨hsynthetic, -, ⟨htorn, htorn'⟩, hhealth, hsettled, honce, htimely⟩ := hr
  rw [hlines] at honce hsettled
  have honce : ((befores controls).map Prod.fst).Nodup := honce
  have hsettled : ∀ token ∈ Observation.begun controls, token ∈ framed d.frames.lines ∨
    token ∈ rolled controls := hsettled
  rw [hk.told] at hsettled htimely
  obtain ⟨l, hl⟩ := controls_read hk.written honce
  have hof := ledger_of hl
  obtain ⟨h, hh⟩ := frames_read hk.written hof honce htimely
  have hread := hook_of hh
  have hcommits : h.commits.map Frame.transactionId = framed frames := by
    rw [hread.commits]
    rfl
  have hnone : (h.settled l).pending = [] := by
    refine List.eq_nil_iff_forall_not_mem.mpr fun p hp => ?_
    obtain ⟨hp, hkept⟩ := List.mem_filter.mp hp
    obtain ⟨hrolled, hframed⟩ := of_decide_eq_true hkept
    rw [hread.ledger.2] at hp
    have hbegun : p.transactionId ∈ Observation.begun controls := by
      rw [← hof.ids]
      exact List.mem_map_of_mem hp
    rcases hsettled _ hbegun with hf | hr
    · exact hframed (hcommits ▸ hf)
    · exact hrolled (hof.rolled ▸ hr)
  have hstop : l.stopped = true → (h.settled l).ended = true ∧
      controls.getLast?.bind Control.cursor = some (h.settled l).cursor := by
    intro hs
    obtain ⟨k, hk'⟩ := hof.stopped.mp hs
    rw [hk.written.stop_last hk']
    exact ⟨hread.ended.mpr (hk.written.stopped hk'), congrArg some hread.cursor.symm⟩
  refine ⟨h.settled l, restore_ok.mpr ⟨controls, l, h, htorn, hlines, hl, htorn',
    hk.told ▸ hh, fun a ha => ?_, ?_, rfl⟩⟩
  · rw [hcommits]
    exact hk.written.acknowledged a (hof.ack ▸ ha)
  · exact resume_ok.mpr ⟨hnone, hstop, (.inl hsynthetic), hhealth⟩

end Restart

/-- After any run, `_restore` succeeds just when the files are `Resumable`, and the hook
it makes is healthy, awaits nothing, and has the cursor, the commits, the writers and the
stage that are on disk. -/
theorem restart_exact [DecidableEq φ] {s : Setup φ}
    {tr : List (DriverEvent φ × Driver φ)} {w : Driver φ}
    (h : Run (Runs.Next (Driver.next s)) .start tr w) :
    ((∃ hook, s.restore w.files = .ok hook) ↔ Resumable s w.files) ∧
      ∀ hook, s.restore w.files = .ok hook →
      hook.healthy = true ∧ hook.pending = [] ∧ hook.cursor = w.files.frames.lines.length ∧
        hook.commits = commitFrames w.files.frames.lines ∧
        (hook.active = true ↔ w.files.frames.lines ≠ []) ∧
        (hook.ended = true ↔ Fenced w.files.frames.lines) ∧
        ∀ writer, writer ∈ hook.writers ↔
        writer ∈ registered (w.files.controls.lines.map ControlLine.control) := by
  obtain ⟨controls, frames, hk, -⟩ :=
    h.inv (Driver.Ok s) (fun _ _ _ hw hstep => hw.next hstep) (.start s)
  constructor
  · constructor
    · rintro ⟨hook, hr⟩
      exact hk.restores hr
    · exact hk.restorable
  · intro hook hr
    obtain ⟨controls', l, h', -, hlines, hl, -, hh, -, hresume, rfl⟩ := restore_ok.mp hr
    have hread := hook_of hh
    have hnone := (resume_ok.mp hresume).1
    refine ⟨hread.healthy.1, hnone, hread.cursor, hread.commits, hread.active,
      hread.ended, fun writer => ?_⟩
    show writer ∈ h'.writers ↔ _
    rw [hread.ledger.1, (ledger_of hl).writers, hlines]
    rfl

def crashed : Driver String :=
  Runs.after (Driver.next rehearsalSetup) .start (rehearsalEvents.take 11)

/-- A COMMIT_ACK that is not there does not matter. -/
theorem restart_exact_rehearsal : ∃ hook, Resumable rehearsalSetup crashed.files ∧
    rehearsalSetup.restore crashed.files = .ok hook ∧
    hook.pending = [] ∧ hook.cursor = 2 ∧
    acks (crashed.files.controls.lines.map ControlLine.control) = [] := by
  obtain ⟨tr, hrun, -⟩ :=
    after_run (Driver.next rehearsalSetup) .start (rehearsalEvents.take 11) (by decide +kernel)
  obtain ⟨hiff, hmakes⟩ := restart_exact hrun
  have hresumable : Resumable rehearsalSetup crashed.files := by
    constructor <;> decide +kernel
  have hlength : crashed.files.frames.lines.length = 2 := by decide +kernel
  obtain ⟨hook, hr⟩ := hiff.mpr hresumable
  obtain ⟨-, hpending, hcursor, -⟩ := hmakes hook hr
  exact ⟨hook, hresumable, hr, hpending, hcursor.trans hlength, by decide +kernel⟩

/-! ## A latch that was not written -/

section Unsaved

variable {s : Setup φ} {d : Files φ}

theorem begin_unsaved [DecidableEq φ] (x : Hook φ) (writer token observedUtc : String) :
    ∃ y, s.call x d (.begin writer token observedUtc) [.raised .clean] false =
      ⟨some y, d, false⟩ := by
  have hacts : s.acts x (.begin writer token observedUtc) = x.begin writer token observedUtc := rfl
  have hfiles : d.diagnose false = d := by
    unfold Files.diagnose
    rw [Bool.or_false]
  unfold Setup.call
  rw [hacts]
  unfold Hook.begin
  by_cases hcapture : x.healthy = false ∨ x.active = false ∨ x.ended = true ∨ writer ∉ x.writers
  · rw [raiseIf_pos hcapture]
    exact ⟨_, congrArg (Outcome.mk _ · false) hfiles⟩
  · rw [raiseIf_not hcapture]
    exact ⟨_, congrArg (Outcome.mk _ · false) hfiles⟩

theorem enter_resumes (hcustody : s.custody = .ok ())
    (hpresent : d.controls.present = true) {hook : Hook φ} (hr : s.restore d = .ok hook)
    (observedUtc : String) (saved : Bool) :
    conclude d [] saved (s.enter d true observedUtc) = ⟨some hook, d, true⟩ := by
  have henter : s.enter d true observedUtc = .ok (hook, []) := by
    have hlock : leaves (Hook.fresh : Hook φ) (raiseIf (true = false) lockError) = .ok () :=
      leaves_ok.mpr (raiseIf_not Bool.false_ne_true.symm)
    unfold Setup.enter
    rw [bind_of_ok (leaves_ok.mpr hcustody), bind_of_ok hlock, if_pos hpresent, hr]
    rfl
  rw [henter]
  rfl

theorem endFence_fences [DecidableEq φ] {x : Hook φ} (hsynthetic : s.evidenceKind = "synthetic")
    (htorn : d.frames.torn = false)
    (hready : x.healthy = true ∧ x.active = true ∧ x.ended = false ∧ x.pending = []) {now : String}
    (hnow : notBefore now s.window.endUtc = .ok true) (transactionId : String) (saved : Bool) :
    Fenced (s.call x d (.endFence now transactionId now now) [] saved).files.frames.lines ∧
      (s.call x d (.endFence now transactionId now now) [] saved).files.health = d.health := by
  obtain ⟨hhealthy, hactive, hended, hpending⟩ := hready
  have hacts : s.acts x (.endFence now transactionId now now) =
    s.endFence x now transactionId now now := rfl
  have hfree : ¬ (x.healthy = false ∨ x.active = false ∨ x.ended = true ∨ x.pending ≠ []) := by
    rw [hhealthy, hactive, hended, hpending]
    simp
  unfold Setup.call
  rw [hacts]
  unfold Setup.endFence
  rw [bind_of_ok (raiseIf_not hfree), bind_of_ok hnow,
    bind_of_ok (raiseIf_not Bool.false_ne_true.symm)]
  unfold Setup.frame Setup.signed
  rw [if_pos hsynthetic]
  refine ⟨?_, rfl⟩
  show Fenced (if d.frames.torn then d.frames.lines else d.frames.lines ++ [_])
  rw [htorn, if_neg Bool.false_ne_true, fenced_snoc]
  exact .inr rfl

end Unsaved

/-- A `begin` that cannot append and whose latch is not written, a commit, and a restart. -/
def forgetful (writer token now transactionId : String)
    (trades decisions : List φ) : List (DriverEvent φ) :=
  [.calls (.begin writer token now) [.raised .clean] false, .slips trades decisions,
    .crashes, .opens true now [] true,
    .calls (.endFence now transactionId now now) [] true]

/-- `_risk` counts on an absent fence where it cannot write its latch. But wherever a restart would
resume a capture, one `begin` that fails and leaves no latch can be followed by a commit that is not
told, a restart, and END_FENCE. -/
theorem latch_needed [DecidableEq φ] {s : Setup φ}
    {tr : List (DriverEvent φ × Driver φ)} {w : Driver φ}
    (h : Run (Runs.Next (Driver.next s)) .start tr w) (hopen : w.hook.isSome = true)
    (hcapturing : Capturing w.files.frames.lines) (hresumable : Resumable s w.files)
    (hcustody : s.custody = .ok ()) {token now : String}
    (htoken : token ∉ begun (w.files.controls.lines.map ControlLine.control))
    (hnow : notBefore now s.window.endUtc = .ok true) (writer transactionId : String)
    (trades decisions : List φ) :
    ∃ tr' w', Run (Runs.Next (Driver.next s)) w tr' w' ∧
      tr'.map Prod.fst = forgetful writer token now transactionId trades decisions ∧
      Fenced w'.files.frames.lines ∧ w'.files.health = false ∧ (trades, decisions) ∈ w'.missed := by
  obtain ⟨x, hx⟩ := Option.isSome_iff_exists.mp hopen
  obtain ⟨controls, frames, hk, -⟩ :=
    h.inv (Driver.Ok s) (fun _ _ _ hw hstep => hw.next hstep) (.start s)
  have hpresent : w.files.controls.present = true := by
    by_contra habsent
    exact hresumable.started (hk.sound.1 (Bool.eq_false_of_not_eq_true habsent)).1
  obtain ⟨hook, hr⟩ := hk.restorable hresumable
  obtain ⟨hhealthy, hpending, -, -, hactive, hended, -⟩ := (restart_exact h).2 hook hr
  have hready : hook.healthy = true ∧ hook.active = true ∧
      hook.ended = false ∧ hook.pending = [] := by
    refine ⟨hhealthy, hactive.mpr hcapturing.1, Bool.eq_false_of_not_eq_true fun he => ?_, hpending⟩
    exact hcapturing.2 (hended.mp he)
  obtain ⟨hfenced, hhealth⟩ :=
    endFence_fences hresumable.synthetic hresumable.whole.2 hready hnow transactionId true
  obtain ⟨y, hcall⟩ := begin_unsaved (s := s) (d := w.files) x writer token now
  let missed := w.missed ++ [(trades, decisions)]
  let o := s.call hook w.files (.endFence now transactionId now now) [] true
  have hrefused : Runs.Next (Driver.next s) w
      (.calls (.begin writer token now) [.raised .clean] false)
      ⟨w.files, some y, w.database, true, w.missed⟩ := by
    have hobeys : w.Obeys (.begin writer token now) = true := decide_eq_true htoken
    unfold Runs.Next Driver.next
    rw [hx]
    dsimp only
    rw [if_pos hobeys, hcall]
    unfold Driver.told
    rw [decide_eq_true hcapturing]
    simp
  have hslips : Runs.Next (Driver.next s) ⟨w.files, some y, w.database, true,
      w.missed⟩ (.slips trades decisions)
      ⟨w.files, some y, w.database, true, missed⟩ := rfl
  have hcrashes : Runs.Next (Driver.next s) ⟨w.files, some y, w.database, true, missed⟩ .crashes
      ⟨w.files, none, w.database, true, missed⟩ := rfl
  have hresumes : Runs.Next (Driver.next s) ⟨w.files, none, w.database, true,
      missed⟩ (.opens true now [] true)
      ⟨w.files, some hook, w.database, true, missed⟩ := by
    unfold Runs.Next Driver.next
    dsimp only
    rw [enter_resumes hcustody hpresent hr]
  have hends : Runs.Next (Driver.next s) ⟨w.files, some hook, w.database, true, missed⟩
      (.calls (.endFence now transactionId now now) [] true)
      ⟨o.files, o.hook, w.database, true, missed⟩ := rfl
  refine ⟨_, _, (Run.single hrefused).trans
    ((Run.single hslips).trans ((Run.single hcrashes).trans ((Run.single hresumes).trans
    (Run.single hends)))), rfl, hfenced, ?_, List.mem_append_right _ (List.mem_singleton_self _)⟩
  exact hhealth.trans hresumable.unlatched

def rehearsedCapture : Driver String :=
  Runs.after (Driver.next rehearsalSetup) .start (rehearsalEvents.take 4)

theorem latch_needed_rehearsal :
    ∃ tr w, Run (Runs.Next (Driver.next rehearsalSetup)) rehearsedCapture tr w ∧
    tr.map Prod.fst = forgetful "ingestion" "t1" "1970-01-01T00:00:41Z" "end:1"
      ["trade"] ["decision"] ∧
    Fenced w.files.frames.lines ∧ w.files.health = false ∧
    (["trade"], ["decision"]) ∈ w.missed := by
  obtain ⟨tr, hrun, -⟩ :=
    after_run (Driver.next rehearsalSetup) .start (rehearsalEvents.take 4) (by decide +kernel)
  have hopen : rehearsedCapture.hook.isSome = true := by decide +kernel
  have hcapturing : Capturing rehearsedCapture.files.frames.lines := by decide +kernel
  have hresumable : Resumable rehearsalSetup rehearsedCapture.files := by
    constructor <;> decide +kernel
  have htoken : "t1" ∉ begun (rehearsedCapture.files.controls.lines.map ControlLine.control) := by
    decide +kernel
  have hnow : notBefore "1970-01-01T00:00:41Z" rehearsalSetup.window.endUtc = .ok true := by
    decide +kernel
  exact latch_needed hrun hopen hcapturing hresumable rfl htoken hnow "ingestion" "end:1"
    ["trade"] ["decision"]

end Polycopy.Observation
