import Mathlib.Data.List.Basic
import Mathlib.Tactic.Common

/-!
# Events that leave no trace

A machine takes events, some of which it answers, and some of the events are *hidden*. Hidden events
leave no trace when every run answers the same as the run without them, which is
`Retention.Machine.purge`.

That is shown by unwinding (`Retention.Machine.Unwinding`): there is a relation between the states
of the two runs which a hidden event on one side keeps, and which an event on both sides keeps, with
the same answer. The relation may depend on how far hidden events have got so far, a *horizon* which
each event may raise, and the events may be known to be allowed where they happen.
-/

namespace Retention

universe u

/-- **A machine**: what an event does to the state, and what it answers. -/
structure Machine (σ : Type u) (ε ο : Type) where
  step : ε → σ → σ × Option ο

namespace Machine

variable {σ : Type u} {ε ο η : Type} (M : Machine σ ε ο) {s t : σ} {e : ε} {events : List ε}

/-- The state after some events. -/
def after : List ε → σ → σ
  | [], s => s
  | e :: events, s => after events (M.step e s).1

/-- The answers along some events. -/
def answers : List ε → σ → List ο
  | [], _ => []
  | e :: events, s => (M.step e s).2.toList ++ answers events (M.step e s).1

/-- Each event happens in a state that suits it. -/
def Along (P : ε → σ → Prop) : List ε → σ → Prop
  | [], _ => True
  | e :: events, s => P e s ∧ Along P events (M.step e s).1

variable (isHidden : ε → Bool)

/-- The events that are not hidden. -/
def purge (events : List ε) : List ε := events.filter fun e => !isHidden e

variable {isHidden} in
theorem purge_cons_of_hidden (h : isHidden e = true) :
    purge isHidden (e :: events) = purge isHidden events :=
  List.filter_cons_of_neg (by simp [h])

variable {isHidden} in
theorem purge_cons_of_visible (h : isHidden e = false) :
    purge isHidden (e :: events) = e :: purge isHidden events :=
  List.filter_cons_of_pos (by simp [h])

variable (raise : η → ε → η) (allowed : η → ε → σ → Prop)

/-- **Every event is allowed** by the horizon that the events before it have raised, and by the state
that those of them which are not hidden have reached. -/
def Allowed : η → List ε → σ → Prop
  | _, [], _ => True
  | h, e :: events, t =>
    allowed h e t ∧ Allowed (raise h e) events (if isHidden e then t else (M.step e t).1)

/-- **The conditions of unwinding.** -/
structure Unwinding (R : η → σ → σ → Prop) : Prop where
  hidden : ∀ {h s t e}, isHidden e = true → allowed h e t → R h s t →
    (M.step e s).2 = none ∧ R (raise h e) (M.step e s).1 t
  visible : ∀ {h s t e}, isHidden e = false → allowed h e t → R h s t →
    (M.step e s).2 = (M.step e t).2 ∧ R (raise h e) (M.step e s).1 (M.step e t).1

variable {M isHidden raise allowed} {R : η → σ → σ → Prop} {h : η}

/-- **Hidden events leave no trace**: the answers are those of the run without them. -/
theorem Unwinding.answers_eq (U : M.Unwinding isHidden raise allowed R) (hR : R h s t)
    (hallowed : M.Allowed isHidden raise allowed h events t) :
    M.answers events s = M.answers (purge isHidden events) t := by
  induction events generalizing h s t with
  | nil => rfl
  | cons e events ih =>
    obtain ⟨he, hrest⟩ := hallowed
    cases hhidden : isHidden e with
    | true =>
      obtain ⟨hsilent, hR'⟩ := U.hidden hhidden he hR
      rw [hhidden, if_pos rfl] at hrest
      rw [purge_cons_of_hidden hhidden, answers, hsilent]
      exact ih hR' hrest
    | false =>
      obtain ⟨hanswer, hR'⟩ := U.visible hhidden he hR
      rw [hhidden, if_neg Bool.false_ne_true] at hrest
      rw [purge_cons_of_visible hhidden, answers, answers, hanswer, ih hR' hrest]

/-- The two runs stay related. -/
theorem Unwinding.after_related (U : M.Unwinding isHidden raise allowed R) (hR : R h s t)
    (hallowed : M.Allowed isHidden raise allowed h events t) :
    ∃ h', R h' (M.after events s) (M.after (purge isHidden events) t) := by
  induction events generalizing h s t with
  | nil => exact ⟨h, hR⟩
  | cons e events ih =>
    obtain ⟨he, hrest⟩ := hallowed
    cases hhidden : isHidden e with
    | true =>
      rw [hhidden, if_pos rfl] at hrest
      rw [purge_cons_of_hidden hhidden]
      exact ih (U.hidden hhidden he hR).2 hrest
    | false =>
      rw [hhidden, if_neg Bool.false_ne_true] at hrest
      rw [purge_cons_of_visible hhidden]
      exact ih (U.visible hhidden he hR).2 hrest

/-- The events before an event are allowed, if all of them are. -/
theorem Allowed.left {before : List ε} (hallowed : M.Allowed isHidden raise allowed h
    (before ++ events) t) : M.Allowed isHidden raise allowed h before t := by
  induction before generalizing h t with
  | nil => trivial
  | cons e before ih => exact ⟨hallowed.1, ih hallowed.2⟩

end Machine

end Retention
