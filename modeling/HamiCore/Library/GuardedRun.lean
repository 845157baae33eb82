import Mathlib.Logic.Relation

/-!
# Runs of a labelled partial step function

A concurrent system is given here by one partial function `step : σ → α → Option σ`.  The label
carries everything the state does not decide: which thread moves, what the environment answers, who
is killed.  An interleaving is then nothing but a sequence of labels, and "for every interleaving"
is a quantifier over runs.

A run is *guarded* by a predicate `ok : σ → α → Prop` when every label meets `ok` in the state it is
taken from.  Two readings of the same notion are used throughout: with `ok` the assumptions on the
environment (an oracle that never lies in one direction), and with `ok` the exact condition under
which a racy protocol keeps its promise.

* `GuardedRun.invariant`: the induction rule for safety properties.
* `GuardedRun.mono`: a run under a stronger guard is a run under a weaker one.
* `GuardedRun.map`: runs carry over along a step-by-step match of two systems.
* `GuardedRun.simulate`: the same along a relation, where a step may be matched by none.
* `GuardedRun.complete`: where the guard leaves no choice, every run is the beginning of the one
  that comes to an end.
* `logged`: a system that writes down what happens, for statements about a whole run; every run is
  one with a log (`GuardedRun.exists_logged`).
* `AtEach`: what holds of every event of a log, with those before it.
* `GuardedRun.of_exec`: a concrete trace, evaluated by `exec`, is a run.
-/

namespace HamiCore

variable {σ α : Type*}

/-- Runs of `step` whose labels all meet `ok` where they are taken. -/
inductive GuardedRun (step : σ → α → Option σ) (ok : σ → α → Prop) : σ → σ → Prop where
  | refl (s : σ) : GuardedRun step ok s s
  | tail {s t u : σ} {a : α} :
      GuardedRun step ok s t → ok t a → step t a = some u → GuardedRun step ok s u

namespace GuardedRun

variable {step : σ → α → Option σ} {ok ok' : σ → α → Prop} {s t u : σ}

/-- **The invariant rule.**  What every guarded step preserves, every guarded run preserves. -/
theorem invariant {P : σ → Prop}
    (hstep : ∀ s a t, P s → ok s a → step s a = some t → P t)
    (h : GuardedRun step ok s t) (hs : P s) : P t := by
  induction h with
  | refl => exact hs
  | tail _ hok hst ih => exact hstep _ _ _ ih hok hst

/-- Weakening the guard. -/
theorem mono (hok : ∀ s a, ok s a → ok' s a) (h : GuardedRun step ok s t) :
    GuardedRun step ok' s t := by
  induction h with
  | refl => exact refl _
  | tail _ ha hst ih => exact ih.tail (hok _ _ ha) hst

/-- Runs compose. -/
theorem trans (h : GuardedRun step ok s t) (h' : GuardedRun step ok t u) :
    GuardedRun step ok s u := by
  induction h' with
  | refl => exact h
  | tail _ hok hst ih => exact ih.tail hok hst

/-- Prepending a step. -/
theorem head {a : α} (hok : ok s a) (hst : step s a = some t) (h : GuardedRun step ok t u) :
    GuardedRun step ok s u := by
  exact ((refl s).tail hok hst).trans h

/-- Runs of one system carried over to another that matches it step by step. -/
theorem map {σ' α' : Type*} {step' : σ' → α' → Option σ'} {ok'' : σ' → α' → Prop} (f : σ → σ')
    (g : α → α') (hok : ∀ s a, ok s a → ok'' (f s) (g a))
    (hstep : ∀ s a t, step s a = some t → step' (f s) (g a) = some (f t))
    (h : GuardedRun step ok s t) : GuardedRun step' ok'' (f s) (f t) := by
  induction h with
  | refl => exact refl _
  | tail _ ha hst ih => exact ih.tail (hok _ _ ha) (hstep _ _ _ hst)

/-- **Forward simulation, with stuttering.**  Where every step of the one system is matched by a
step of the other, or by none, every run of the one is matched by a run of the other. -/
theorem simulate {σ' α' : Type*} {step' : σ' → α' → Option σ'} {ok'' : σ' → α' → Prop}
    {R : σ → σ' → Prop}
    (hstep : ∀ s a t s', R s s' → ok s a → step s a = some t →
      R t s' ∨ ∃ b t', ok'' s' b ∧ step' s' b = some t' ∧ R t t')
    (h : GuardedRun step ok s t) {s' : σ'} (hs : R s s') :
    ∃ t', GuardedRun step' ok'' s' t' ∧ R t t' := by
  induction h with
  | refl => exact ⟨s', refl s', hs⟩
  | tail _ ha hst ih =>
    obtain ⟨u', hrun, hu⟩ := ih
    rcases hstep _ _ _ u' hu ha hst with hstutter | ⟨b, t', hb, hbt, ht⟩
    · exact ⟨u', hrun, hstutter⟩
    · exact ⟨t', hrun.tail hb hbt, ht⟩

/-- A run is empty, or begins with a step. -/
theorem eq_or_head (h : GuardedRun step ok s u) :
    s = u ∨ ∃ a t, ok s a ∧ step s a = some t ∧ GuardedRun step ok t u := by
  induction h with
  | refl => exact Or.inl rfl
  | tail _ hok hst ih =>
    rcases ih with rfl | ⟨a, t, ha, hat, hrest⟩
    · exact Or.inr ⟨_, _, hok, hst, refl _⟩
    · exact Or.inr ⟨a, t, ha, hat, hrest.tail hok hst⟩

/-- **Runs without choice.**  When any two labels the guard allows do the same, and a run has come
to a state from which no step is possible, every run from the same state leads on to that one. -/
theorem complete (hdet : ∀ s a b, ok s a → ok s b → step s a = step s b)
    (hend : ∀ a, step u a = none) (hu : GuardedRun step ok s u) (ht : GuardedRun step ok s t) :
    GuardedRun step ok t u := by
  induction ht with
  | refl => exact hu
  | tail _ hok hst ih =>
    rcases ih.eq_or_head with rfl | ⟨a, v, ha, hav, hrest⟩
    · rw [hend] at hst
      exact absurd hst (by simp)
    · rw [hdet _ _ _ ha hok, hst] at hav
      cases hav
      exact hrest

end GuardedRun

/-- A step together with a log, in which `event` writes down what happens in the step. -/
def logged {ε : Type*} (step : σ → α → Option σ) (event : σ → α → List ε) (x : σ × List ε)
    (a : α) : Option (σ × List ε) :=
  (step x.1 a).map fun t => (t, x.2 ++ event x.1 a)

/-- A step with a log is a step. -/
theorem step_of_logged {ε : Type*} {step : σ → α → Option σ} {event : σ → α → List ε}
    {x y : σ × List ε} {a : α} (h : logged step event x a = some y) :
    step x.1 a = some y.1 ∧ y.2 = x.2 ++ event x.1 a := by
  obtain ⟨t, ht, rfl⟩ := Option.map_eq_some_iff.mp h
  exact ⟨ht, rfl⟩

/-- Every run can be taken with a log. -/
theorem GuardedRun.exists_logged {ε : Type*} {step : σ → α → Option σ} {ok : σ → α → Prop}
    {s t : σ} (event : σ → α → List ε) (log : List ε) (h : GuardedRun step ok s t) :
    ∃ log', GuardedRun (logged step event) (fun x a => ok x.1 a) (s, log) (t, log') := by
  induction h with
  | refl => exact ⟨log, refl _⟩
  | @tail u v a _ hok hst ih =>
    obtain ⟨log', hrun⟩ := ih
    have hlogged : logged step event (u, log') a = some (v, log' ++ event u a) := by
      rw [logged, hst]
      rfl
    exact ⟨log' ++ event u a, hrun.tail hok hlogged⟩

/-- What holds of every event of a log and those before it. -/
def AtEach {ε : Type*} (P : List ε → ε → Prop) (log : List ε) : Prop :=
  ∀ earlier e later, log = earlier ++ e :: later → P earlier e

theorem atEach_nil {ε : Type*} (P : List ε → ε → Prop) : AtEach P [] :=
  fun _ _ _ hnil => absurd hnil.symm (by simp)

/-- One more event. -/
theorem AtEach.concat {ε : Type*} {P : List ε → ε → Prop} {log : List ε} {e : ε}
    (h : AtEach P log) (he : P log e) : AtEach P (log ++ [e]) := by
  intro earlier e' later hlog
  -- the event is an earlier one, or the new one
  rcases List.eq_nil_or_concat later with rfl | ⟨later, e'', rfl⟩
  · obtain ⟨rfl, hevent⟩ := List.append_inj' hlog rfl
    rwa [← List.singleton_inj.mp hevent]
  · rw [List.concat_eq_append, ← List.cons_append, ← List.append_assoc] at hlog
    exact h earlier e' later (List.append_inj' hlog rfl).1

/-- Run the labels of a list one after the other; `none` when one of them is not enabled, or fails
the test `chk` where it is taken. -/
def exec (step : σ → α → Option σ) (chk : σ → α → Bool) : List α → σ → Option σ
  | [], s => some s
  | a :: as, s => if chk s a then (step s a).bind (exec step chk as) else none

/-- A trace that evaluates is a run, under any guard that its labels meet where they pass the
test. -/
theorem GuardedRun.of_exec {step : σ → α → Option σ} {ok : σ → α → Prop} {chk : σ → α → Bool}
    {as : List α} (hok : ∀ a ∈ as, ∀ s, chk s a = true → ok s a) {s t : σ}
    (h : exec step chk as s = some t) : GuardedRun step ok s t := by
  induction as generalizing s with
  | nil =>
    rw [exec, Option.some.injEq] at h
    rw [h]
    exact refl t
  | cons a as ih =>
    rw [exec] at h
    split at h
    · next hchk =>
      obtain ⟨u, hu, hrest⟩ := Option.bind_eq_some_iff.mp h
      exact head (hok a List.mem_cons_self s hchk) hu
        (ih (fun b hb => hok b (List.mem_cons_of_mem a hb)) hrest)
    · exact absurd h (by simp)

end HamiCore
