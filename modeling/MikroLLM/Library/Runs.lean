import Mathlib.Data.List.Basic

/-!
# Runs of a deterministic labelled system

A system is a partial step function. The label carries everything the
environment chooses, so a run is determined by its first state and its labels.
`Run` additionally asks a side condition of every step, which is how a result
that only holds for well-behaved runs is stated.
-/

namespace MikroLLM.Library

universe u v

variable {State : Type u} {Label : Type v}

/-- Execute a list of labels; `none` when one of them is not enabled. -/
def exec (step : State → Label → Option State) : State → List Label → Option State
  | state, [] => some state
  | state, label :: rest => (step state label).bind fun next => exec step next rest

/-- A run all of whose steps meet the side condition `admits`. -/
inductive Run (step : State → Label → Option State) (admits : State → Label → Prop) :
    State → List Label → State → Prop where
  | nil (state : State) : Run step admits state [] state
  | cons {state next last : State} {label : Label} {rest : List Label}
      (admitted : admits state label) (fires : step state label = some next)
      (tail : Run step admits next rest last) : Run step admits state (label :: rest) last

/-- Execute a list of labels; `none` when one of them is not enabled or not admitted. -/
def execWhen (step : State → Label → Option State) (admits : State → Label → Bool) :
    State → List Label → Option State
  | state, [] => some state
  | state, label :: rest =>
      if admits state label then
        (step state label).bind fun next => execWhen step admits next rest
      else none

variable {step : State → Label → Option State} {admits : State → Label → Prop}

/-- An invariant that every admitted step keeps holds at the end of every run. -/
theorem Run.invariant {first last : State} {labels : List Label} (Inv : State → Prop)
    (run : Run step admits first labels last) (start : Inv first)
    (kept : ∀ {state next label}, Inv state → admits state label →
      step state label = some next → Inv next) : Inv last := by
  induction run with
  | nil state => exact start
  | cons admitted fires tail ih => exact ih (kept start admitted fires)

/-- An invariant that every admitted step keeps in states where an invariant of all steps holds. -/
theorem Run.invariant_under {first last : State} {labels : List Label} {Base Inv : State → Prop}
    (run : Run step admits first labels last) (baseStart : Base first)
    (baseKept : ∀ {state next label}, Base state → step state label = some next → Base next)
    (start : Inv first)
    (kept : ∀ {state next label}, Base state → Inv state → admits state label →
      step state label = some next → Inv next) : Inv last := by
  induction run with
  | nil state => exact start
  | cons admitted fires tail ih =>
      exact ih (baseKept baseStart fires) (kept baseStart start admitted fires)

/-- A run with a weaker side condition. -/
theorem Run.mono {weaker : State → Label → Prop} {first last : State} {labels : List Label}
    (run : Run step admits first labels last)
    (weaken : ∀ state label, admits state label → weaker state label) :
    Run step weaker first labels last := by
  induction run with
  | nil state => exact Run.nil state
  | cons admitted fires tail ih => exact Run.cons (weaken _ _ admitted) fires ih

/-- A run all of whose labels meet a condition. -/
theorem Run.with_labels {first last : State} {labels : List Label} {condition : Label → Prop}
    (run : Run step admits first labels last) (all : ∀ label ∈ labels, condition label) :
    Run step (fun state label => admits state label ∧ condition label) first labels last := by
  induction run with
  | nil state => exact Run.nil state
  | cons admitted fires tail ih =>
      rw [List.forall_mem_cons] at all
      exact Run.cons ⟨admitted, all.1⟩ fires (ih all.2)

/-- Two runs, one after the other. -/
theorem Run.append {first middle last : State} {before after : List Label}
    (run : Run step admits first before middle) (more : Run step admits middle after last) :
    Run step admits first (before ++ after) last := by
  induction run with
  | nil state => simpa using more
  | cons admitted fires tail ih => exact Run.cons admitted fires (ih more)

/-- Every execution is a run without a side condition. -/
theorem run_of_exec {first last : State} {labels : List Label}
    (executed : exec step first labels = some last) :
    Run step (fun _ _ => True) first labels last := by
  induction labels generalizing first with
  | nil =>
      simp only [exec, Option.some.injEq] at executed
      subst executed
      exact Run.nil first
  | cons label rest ih =>
      simp only [exec, Option.bind_eq_some_iff] at executed
      rcases executed with ⟨next, fires, tail⟩
      exact Run.cons trivial fires (ih tail)

/-- Every checked execution is a run. -/
theorem run_of_execWhen {allowed : State → Label → Bool} {first last : State} {labels : List Label}
    (executed : execWhen step allowed first labels = some last) :
    Run step (fun state label => allowed state label = true) first labels last := by
  induction labels generalizing first with
  | nil =>
      simp only [execWhen, Option.some.injEq] at executed
      subst executed
      exact Run.nil first
  | cons label rest ih =>
      simp only [execWhen] at executed
      split at executed
      · rename_i admitted
        rcases Option.bind_eq_some_iff.mp executed with ⟨next, fires, tail⟩
        exact Run.cons admitted fires (ih tail)
      · cases executed

section Histories

variable {Base Good : State → Prop} {first last : State} {labels : List Label}

theorem good_of_exec
    (past : ∀ {state next label}, step state label = some next → Good next → Good state)
    (ran : exec step first labels = some last) (good : Good last) : Good first := by
  induction labels generalizing first with
  | nil =>
      cases ran
      exact good
  | cons label rest ih =>
      rcases Option.bind_eq_some_iff.mp ran with ⟨next, fires, tail⟩
      exact past fires (ih tail)

/-- A history that an admitted step keeps good, and no other step does, is good after a run exactly
when all steps of the run were admitted. -/
theorem good_iff_run
    (kept : ∀ {state next label}, Base state → Good state → admits state label →
      step state label = some next → Base next ∧ Good next)
    (exact : ∀ {state next label}, Base state → step state label = some next → Good next →
      admits state label)
    (past : ∀ {state next label}, step state label = some next → Good next → Good state)
    (ran : exec step first labels = some last) (base : Base first) (good : Good first) :
    Good last ↔ Run step admits first labels last := by
  induction labels generalizing first with
  | nil =>
      cases ran
      exact ⟨fun _ => Run.nil _, fun _ => good⟩
  | cons label rest ih =>
      rcases Option.bind_eq_some_iff.mp ran with ⟨next, fires, tail⟩
      constructor
      · intro lastGood
        have nextGood := good_of_exec past tail lastGood
        have admitted := exact base fires nextGood
        have nextBase := (kept base good admitted fires).1
        exact Run.cons admitted fires ((ih tail nextBase nextGood).mp lastGood)
      · intro run
        cases run with
        | cons admitted alsoFires run =>
            rw [fires, Option.some.injEq] at alsoFires
            subst alsoFires
            rcases kept base good admitted fires with ⟨nextBase, nextGood⟩
            exact (ih tail nextBase nextGood).mpr run

end Histories

end MikroLLM.Library
