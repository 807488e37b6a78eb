/-
# Theory.PartialRun -- runs of a step that may have no result

A step `step : σ → ι → Option σ` has no result where the program has none.  `runPartial` runs
it over a list of inputs and stops for good at the first step without a result.

`runPartial_invariant` carries a property over a run, `runPartial_simulates` a relation to the
run of a step that always has a result.  `throughout_iff_step` is the rule for a property that
some steps destroy: it holds in every state of a run exactly when the run takes none of them.
-/
import Mathlib.Data.List.Induction

namespace Stm32Robot.Theory.PartialRun

set_option autoImplicit false

variable {σ ι : Type*} {step : σ → ι → Option σ}

/-- The state after a list of inputs, if every step has a result. -/
def runPartial (step : σ → ι → Option σ) (s : σ) : List ι → Option σ
  | [] => some s
  | i :: is => (step s i).bind fun t => runPartial step t is

theorem runPartial_concat (s : σ) (is : List ι) (i : ι) :
    runPartial step s (is ++ [i]) = (runPartial step s is).bind fun t => step t i := by
  induction is generalizing s with
  | nil => exact Option.bind_fun_some (step s i)
  | cons j is ih =>
      show (step s j).bind _ = ((step s j).bind _).bind _
      rw [Option.bind_assoc]
      exact congrArg (Option.bind (step s j)) (funext ih)

theorem runPartial_concat_iff {s u : σ} {is : List ι} {i : ι} :
    runPartial step s (is ++ [i]) = some u ↔
      ∃ t, runPartial step s is = some t ∧ step t i = some u := by
  rw [runPartial_concat, Option.bind_eq_some_iff]

/-- A property every step keeps holds after every run. -/
theorem runPartial_invariant {P : σ → Prop} (kept : ∀ s i t, P s → step s i = some t → P t)
    {s t : σ} (start : P s) {is : List ι} (ran : runPartial step s is = some t) : P t := by
  induction is using List.reverseRecOn generalizing t with
  | nil => exact Option.some.inj ran ▸ start
  | append_singleton is i ih =>
      obtain ⟨u, before, last⟩ := runPartial_concat_iff.mp ran
      exact kept u i t (ih before) last

/-- A run of a total step is followed by the partial one, which then has a result, where each
input of the run is. -/
theorem runPartial_simulates {τ : Type*} {f : τ → ι → τ} {R : τ → σ → Prop} {is : List ι}
    (followed : ∀ i ∈ is, ∀ t s, R t s → ∃ s', step s i = some s' ∧ R (f t i) s')
    {t : τ} {s : σ} (start : R t s) :
    ∃ s', runPartial step s is = some s' ∧ R (is.foldl f t) s' := by
  induction is generalizing t s with
  | nil => exact ⟨s, rfl, start⟩
  | cons i is ih =>
      obtain ⟨next, first, related⟩ := followed i List.mem_cons_self t s start
      obtain ⟨last, rest, done⟩ :=
        ih (fun j mem => followed j (List.mem_cons_of_mem i mem)) related
      refine ⟨last, ?_, done⟩
      rw [runPartial, first, Option.bind_some, rest]

/-- A property that certain steps destroy and all others keep, under an invariant, holds in
every state of a run exactly when the run takes no such step. -/
theorem throughout_iff_step {J P : σ → Prop} {bad : σ → ι → Prop}
    (always : ∀ s i t, J s → step s i = some t → J t)
    (kept : ∀ s i t, J s → P s → ¬ bad s i → step s i = some t → P t)
    (broken : ∀ s i t, J s → bad s i → step s i = some t → ¬ P t)
    {s : σ} (invariant : J s) (start : P s) (is : List ι) :
    (∀ before t, before <+: is → runPartial step s before = some t → P t) ↔
      ∀ before i t u, before ++ [i] <+: is → runPartial step s before = some t →
        step t i = some u → ¬ bad t i := by
  constructor
  · intro holds before i t u inside ran last destroys
    have after := runPartial_concat_iff.mpr ⟨t, ran, last⟩
    exact broken t i u (runPartial_invariant always invariant ran) destroys last
      (holds _ u inside after)
  · intro spared before
    induction before using List.reverseRecOn with
    | nil =>
        intro t _ ran
        exact Option.some.inj ran ▸ start
    | append_singleton before i ih =>
        intro t inside ran
        obtain ⟨u, ranBefore, last⟩ := runPartial_concat_iff.mp ran
        have earlier : before <+: is := (List.prefix_append before [i]).trans inside
        exact kept u i t (runPartial_invariant always invariant ranBefore)
          (ih u earlier ranBefore) (spared before i u t inside ranBefore last) last

/-- The same for a property that the inputs of one kind destroy, whatever the state. -/
theorem throughout_iff {J P : σ → Prop} {bad : ι → Prop}
    (always : ∀ s i t, J s → step s i = some t → J t)
    (kept : ∀ s i t, J s → P s → ¬ bad i → step s i = some t → P t)
    (broken : ∀ s i t, J s → bad i → step s i = some t → ¬ P t)
    {s : σ} (invariant : J s) (start : P s) (is : List ι) :
    (∀ before t, before <+: is → runPartial step s before = some t → P t) ↔
      ∀ before i t, before ++ [i] <+: is → runPartial step s (before ++ [i]) = some t →
        ¬ bad i := by
  rw [throughout_iff_step always kept broken invariant start]
  constructor
  · intro spared before i t inside ran
    obtain ⟨u, ranBefore, last⟩ := runPartial_concat_iff.mp ran
    exact spared before i u t inside ranBefore last
  · intro spared before i t u inside ran last
    exact spared before i u inside (runPartial_concat_iff.mpr ⟨t, ran, last⟩)

end Stm32Robot.Theory.PartialRun
