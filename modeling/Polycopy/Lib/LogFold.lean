import Mathlib.Data.List.Basic

/-!
# Folding a log

A log is read record by record; each record is checked against the state and the
records before it, and the first that is refused ends the reading.

    runFrom next pre s es    reads `es`, which follows `pre`, from the state `s`

Reading is done in any two parts (`runFrom_append`), so a reader that has kept the
state of a prefix and reads the rest knows what a reader of the whole knows
(`runFrom_rest`).
-/

namespace LogFold

variable {S E X : Type} (next : List E → S → E → Except X S)

def runFrom (pre : List E) (s : S) : List E → Except X S
  | [] => .ok s
  | e :: es => (next pre s e).bind fun t => runFrom (pre ++ [e]) t es

theorem bind_ok {α β : Type} {x : Except X α} {f : α → Except X β} {r : β} (h : x.bind f = .ok r) :
    ∃ a, x = .ok a ∧ f a = .ok r := by
  cases x with
  | error e => cases h
  | ok a => exact ⟨a, rfl, h⟩

theorem runFrom_cons (pre : List E) (s : S) (e : E) (es : List E) :
    runFrom next pre s (e :: es) = (next pre s e).bind fun t =>
    runFrom next (pre ++ [e]) t es := rfl

theorem runFrom_append (pre : List E) (s : S) (es more : List E) :
    runFrom next pre s (es ++ more) = (runFrom next pre s es).bind fun t =>
    runFrom next (pre ++ es) t more := by
  induction es generalizing pre s with
  | nil =>
    rw [List.append_nil]
    rfl
  | cons e es ih =>
    rw [List.cons_append, runFrom_cons, runFrom_cons]
    cases next pre s e with
    | error x => rfl
    | ok t =>
      have hrest := ih (pre ++ [e]) t
      rwa [List.append_assoc, List.singleton_append] at hrest

theorem runFrom_snoc (pre : List E) (s : S) (es : List E) (e : E) :
    runFrom next pre s (es ++ [e]) = (runFrom next pre s es).bind fun t =>
    next (pre ++ es) t e := by
  rw [runFrom_append]
  cases runFrom next pre s es with
  | error x => rfl
  | ok t =>
    show (next (pre ++ es) t e).bind _ = next (pre ++ es) t e
    cases next (pre ++ es) t e <;> rfl

/-- The rest of a log, after a prefix. -/
theorem runFrom_rest {s t : S} (es : List E) {n : Nat} (h : runFrom next [] s (es.take n) = .ok t) :
    runFrom next [] s es = runFrom next (es.take n) t (es.drop n) := by
  have hsplit := runFrom_append next [] s (es.take n) (es.drop n)
  rw [List.take_append_drop, h] at hsplit
  exact hsplit

/-- A log that can be read, its prefixes can. -/
theorem runFrom_prefix {pre : List E} {s t : S} {es more : List E}
    (h : runFrom next pre s (es ++ more) = .ok t) :
    ∃ u, runFrom next pre s es = .ok u ∧ runFrom next (pre ++ es) u more = .ok t := by
  rw [runFrom_append] at h
  exact bind_ok h

/-- What each record keeps, of the state and of the records read, holds at the end. -/
theorem runFrom_inv (I : List E → S → Prop)
    (hI : ∀ pre s e t, I pre s → next pre s e = .ok t → I (pre ++ [e]) t) {pre : List E}
    {s t : S} {es : List E} (h0 : I pre s)
    (h : runFrom next pre s es = .ok t) : I (pre ++ es) t := by
  induction es generalizing pre s with
  | nil =>
    rw [List.append_nil]
    exact Except.ok.inj h ▸ h0
  | cons e es ih =>
    obtain ⟨u, hu, h⟩ := bind_ok h
    have hrest := ih (hI pre s e u h0 hu) h
    rwa [List.append_assoc, List.singleton_append] at hrest

end LogFold
