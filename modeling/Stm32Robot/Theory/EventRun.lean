/-
# Theory.EventRun -- runs of a step that shows events, and what they refine

A step `step : σ → ι → Option (σ × List ε)` takes an input and shows the events of that step.
`shown step` keeps the events of a run.

An abstract machine is a step that takes the events as inputs, `accept : τ → ε → Option τ`.  It
describes the program where every run of the program, by the events it shows, is a run of the
abstract machine: `shown_refines` has this of a relation between the two states that each step
of the program carries on, over the runs whose inputs are as the program expects them.
-/
import Stm32Robot.Theory.PartialRun

namespace Stm32Robot.Theory.EventRun

open Stm32Robot.Theory.PartialRun

set_option autoImplicit false

variable {σ τ ι ε : Type*} {step : σ → ι → Option (σ × List ε)} {accept : τ → ε → Option τ}

/-- A step, with the events so far. -/
def shown (step : σ → ι → Option (σ × List ε)) (s : σ × List ε) (i : ι) : Option (σ × List ε) :=
  (step s.1 i).map fun t => (t.1, s.2 ++ t.2)

theorem runPartial_append {step : σ → ι → Option σ} (s : σ) (is js : List ι) :
    runPartial step s (is ++ js) = (runPartial step s is).bind fun t => runPartial step t js := by
  induction is generalizing s with
  | nil => rfl
  | cons i is ih =>
      rw [List.cons_append, runPartial, runPartial, Option.bind_assoc]
      exact congrArg (Option.bind (step s i)) (funext ih)

/-- What a step of the program does to the state and the events so far. -/
theorem shown_eq_some_iff {s t : σ × List ε} {i : ι} :
    shown step s i = some t ↔ ∃ es, step s.1 i = some (t.1, es) ∧ t.2 = s.2 ++ es := by
  unfold shown
  rw [Option.map_eq_some_iff]
  constructor
  · rintro ⟨⟨u, es⟩, stepped, rfl⟩
    exact ⟨es, stepped, rfl⟩
  · rintro ⟨es, stepped, events⟩
    exact ⟨(t.1, es), stepped, by rw [← events]⟩

/-- A property of the state and the events so far that each step keeps. -/
theorem shown_invariant {P : σ → List ε → Prop} {good : ι → Prop}
    (kept : ∀ s es i s' es', P s es → good i → step s i = some (s', es') → P s' (es ++ es'))
    {s s' : σ} {is : List ι} {es es' : List ε} (all : ∀ i ∈ is, good i) (start : P s es)
    (ran : runPartial (shown step) (s, es) is = some (s', es')) : P s' es' := by
  induction is generalizing s es with
  | nil =>
      cases ran
      exact start
  | cons i is ih =>
      obtain ⟨t, stepped, rest⟩ := Option.bind_eq_some_iff.mp ran
      obtain ⟨shows, stepped', events⟩ := shown_eq_some_iff.mp stepped
      have next := kept s es i t.1 shows start (all i List.mem_cons_self) stepped'
      rw [← events] at next
      exact ih (fun j mem => all j (List.mem_cons_of_mem i mem)) next rest

/-- The events of a run are taken by the abstract machine. -/
theorem shown_refines {R : σ → τ → Prop} {good : ι → Prop}
    (simulates : ∀ s o i s' es, R s o → good i → step s i = some (s', es) →
      ∃ o', runPartial accept o es = some o' ∧ R s' o')
    {s s' : σ} {o : τ} (start : R s o) {is : List ι} {es : List ε} (all : ∀ i ∈ is, good i)
    (ran : runPartial (shown step) (s, []) is = some (s', es)) :
    ∃ o', runPartial accept o es = some o' ∧ R s' o' := by
  have kept (t : σ) (log : List ε) (i : ι) (t' : σ) (es' : List ε)
      (before : ∃ u, runPartial accept o log = some u ∧ R t u) (expected : good i)
      (stepped : step t i = some (t', es')) :
      ∃ u, runPartial accept o (log ++ es') = some u ∧ R t' u := by
    obtain ⟨u, taken, related⟩ := before
    obtain ⟨u', more, related'⟩ := simulates t u i t' es' related expected stepped
    refine ⟨u', ?_, related'⟩
    rw [runPartial_append, taken, Option.bind_some, more]
  exact shown_invariant kept all ⟨o, rfl, start⟩ ran

end Stm32Robot.Theory.EventRun
