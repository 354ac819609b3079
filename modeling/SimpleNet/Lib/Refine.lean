import SimpleNet.Lib.Run

/-!
# Refinement between a machine and a specification

A specification is a relation `R s l t`: in `s` the action `l` may lead to `t`.  Its runs are built
at the end, so that an induction over `Runs` follows what has happened so far.

`runs_of_run`: where a function takes each step of a machine to a step of the specification, it
takes each run of the machine to a run of the specification, whose labels are those of the steps.
-/

namespace Steps

variable {σ α ρ ℓ : Type*}

inductive Runs (R : ρ → ℓ → ρ → Prop) (s : ρ) : List ℓ → ρ → Prop
  | nil : Runs R s [] s
  | snoc {ls : List ℓ} {t : ρ} {l : ℓ} {u : ρ} (h : Runs R s ls t) (hl : R t l u) :
    Runs R s (ls ++ [l]) u

section

variable {R : ρ → ℓ → ρ → Prop} {s t u : ρ} {l : ℓ} {ls ms : List ℓ}

theorem Runs.append (h : Runs R s ls t) (g : Runs R t ms u) : Runs R s (ls ++ ms) u := by
  induction g with
  | nil => rwa [List.append_nil]
  | snoc _ hl ih =>
    rw [← List.append_assoc]
    exact ih.snoc hl

theorem Runs.cons (hl : R s l t) (h : Runs R t ls u) : Runs R s (l :: ls) u :=
  Runs.append (Runs.snoc .nil hl) h

/-- The invariant rule. -/
theorem Runs.invariant {I : ρ → Prop} (hstep : ∀ s l t, I s → R s l t → I t) (hs : I s)
    (h : Runs R s ls t) : I t := by
  induction h with
  | nil => exact hs
  | snoc _ hl ih => exact hstep _ _ _ ih hl

end

/-! ### From the machine to the specification -/

variable {step : σ → α → Option σ} {R : ρ → ℓ → ρ → Prop}

/-- **Simulation.**  A machine whose steps are steps of a specification refines it. -/
theorem runs_of_run {I : σ → Prop} {abs : σ → ρ} {label : σ → α → ℓ}
    (hI : ∀ s a t, I s → step s a = some t → I t)
    (hR : ∀ s a t, I s → step s a = some t → R (abs s) (label s a) (abs t)) :
    ∀ {as : List α} {s t : σ}, I s → run step s as = some t →
      Runs R (abs s) ((trail step s as).map fun x => label x.1 x.2.1) (abs t) := by
  intro as
  induction as with
  | nil =>
    intro s t _ h
    obtain rfl := Option.some.inj h
    exact .nil
  | cons a as ih =>
    intro s t hs h
    obtain ⟨u, hu, h⟩ := run_cons_eq_some.mp h
    rw [trail_cons hu, List.map_cons]
    exact Runs.cons (hR s a u hs hu) (ih (hI s a u hs hu) h)

theorem run_append (as bs : List α) (s : σ) :
    run step s (as ++ bs) = (run step s as).bind fun t => run step t bs := by
  induction as generalizing s with
  | nil => rfl
  | cons a as ih =>
    rw [List.cons_append, run, run, Option.bind_assoc]
    exact congrArg _ (funext ih)

/-- Simulation by another machine, which may take any number of steps for one. -/
theorem run_of_run {τ β : Type*} {step' : τ → β → Option τ} {I : σ → Prop} {abs : σ → τ}
    {moves : σ → α → List β} (hI : ∀ s a t, I s → step s a = some t → I t)
    (hR : ∀ s a t, I s → step s a = some t → run step' (abs s) (moves s a) = some (abs t)) :
    ∀ {as : List α} {s t : σ}, I s → run step s as = some t →
      run step' (abs s) ((trail step s as).flatMap fun x => moves x.1 x.2.1) = some (abs t) := by
  intro as
  induction as with
  | nil =>
    intro s t _ h
    obtain rfl := Option.some.inj h
    rfl
  | cons a as ih =>
    intro s t hs h
    obtain ⟨u, hu, h⟩ := run_cons_eq_some.mp h
    rw [trail_cons hu, List.flatMap_cons, run_append, hR s a u hs hu]
    exact ih (hI s a u hs hu) h

/-- All labels of a run are taken. -/
theorem map_label_trail : ∀ {as : List α} {s t : σ}, run step s as = some t →
    (trail step s as).map (fun x => x.2.1) = as := by
  intro as
  induction as with
  | nil => exact fun _ => rfl
  | cons a as ih =>
    intro s t h
    obtain ⟨u, hu, h⟩ := run_cons_eq_some.mp h
    rw [trail_cons hu, List.map_cons, ih h]

/-- What is observed of the machine is what its labels show, if this is so at each step. -/
theorem observed_run {β : Type*} {μ : σ → List β} {label : σ → α → ℓ} {obs : ℓ → Option β}
    {I : σ → Prop} (hI : ∀ s a t, I s → step s a = some t → I t)
    (hμ : ∀ s a t, I s → step s a = some t → μ t = μ s ++ (obs (label s a)).toList) :
    ∀ {as : List α} {s t : σ}, I s → run step s as = some t →
      μ t = μ s ++ ((trail step s as).map fun x => label x.1 x.2.1).filterMap obs := by
  intro as
  induction as with
  | nil =>
    intro s t _ h
    obtain rfl := Option.some.inj h
    exact (List.append_nil _).symm
  | cons a as ih =>
    intro s t hs h
    obtain ⟨u, hu, h⟩ := run_cons_eq_some.mp h
    rw [ih (hI s a u hs hu) h, hμ s a u hs hu, trail_cons hu, List.map_cons, List.append_assoc]
    refine congrArg (μ s ++ ·) ?_
    cases ho : obs (label s a) with
    | none => rw [List.filterMap_cons_none ho]; rfl
    | some b => rw [List.filterMap_cons_some ho]; rfl

end Steps
