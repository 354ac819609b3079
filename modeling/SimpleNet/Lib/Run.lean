import Mathlib.Algebra.GroupWithZero.Nat
import Mathlib.Logic.Basic
import Mathlib.Tactic.Common

/-!
# Runs of a partial step function

A machine is a step function `step : σ → α → Option σ`: the label `a` says which
step is taken, and `none` says that this step is not enabled in the state.  `run`
takes the labels of a list one after the other.  Two ways to speak of a run whose
steps are restricted are used:

* `guarded ok step` takes a step only where the guard `ok` holds, and
  `run_invariant` carries an invariant along all its runs;
* `Always Q s as` says that `Q` holds of every step taken from `s` along `as`, and
  `always_congr` compares two such step properties over whole runs.

`trail step s as` lists the steps of a run, and `count_trail` counts them.
-/

namespace Steps

variable {σ α : Type*} {step : σ → α → Option σ}

/-- The state after the labels of a list; `none` if one of them is not enabled. -/
def run (step : σ → α → Option σ) : σ → List α → Option σ
  | s, [] => some s
  | s, a :: as => (step s a).bind fun t => run step t as

@[simp] theorem run_nil (s : σ) : run step s [] = some s := rfl

theorem run_cons_eq_some {s t : σ} {a : α} {as : List α} :
    run step s (a :: as) = some t ↔ ∃ u, step s a = some u ∧ run step u as = some t := by
  simp [run, Option.bind_eq_some_iff]

/-- A computation as a step: where it fails the step is not enabled. -/
theorem toOption_eq_some {ε : Type*} {x : Except ε σ} {s : σ} : x.toOption = some s ↔ x = .ok s := by
  cases x <;> simp [Except.toOption]

/-- **The invariant rule.**  What one step keeps, a run keeps. -/
theorem run_invariant {I : σ → Prop} (hstep : ∀ s a t, I s → step s a = some t → I t) :
    ∀ {as : List α} {s t : σ}, I s → run step s as = some t → I t := by
  intro as
  induction as with
  | nil => intro s t hs h; rw [run_nil] at h; exact Option.some.inj h ▸ hs
  | cons a as ih =>
    intro s t hs h
    obtain ⟨u, hu, ht⟩ := run_cons_eq_some.mp h
    exact ih (hstep s a u hs hu) ht

/-- The invariant rule for the labels of a kind. -/
theorem run_invariant_of {I : σ → Prop} {p : α → Prop}
    (hstep : ∀ s a t, p a → I s → step s a = some t → I t) :
    ∀ {as : List α} {s t : σ}, (∀ a ∈ as, p a) → I s → run step s as = some t → I t := by
  intro as
  induction as with
  | nil => intro s t _ hs h; rw [run_nil] at h; exact Option.some.inj h ▸ hs
  | cons a as ih =>
    intro s t hp hs h
    obtain ⟨u, hu, ht⟩ := run_cons_eq_some.mp h
    have hI := hstep s a u (hp a List.mem_cons_self) hs hu
    exact ih (fun b hb => hp b (List.mem_cons_of_mem a hb)) hI ht

/-! ### Guarded steps -/

/-- The steps of `step` taken where `ok` holds. -/
def guarded (ok : σ → α → Prop) [∀ s a, Decidable (ok s a)] (step : σ → α → Option σ)
    (s : σ) (a : α) : Option σ :=
  if ok s a then step s a else none

theorem guarded_eq_some {ok : σ → α → Prop} [∀ s a, Decidable (ok s a)] {s t : σ} {a : α} :
    guarded ok step s a = some t ↔ ok s a ∧ step s a = some t := by
  unfold guarded
  split
  · next h => simp [h]
  · next h => simp [h]

/-! ### Properties of all steps of a run -/

/-- Every step taken from `s` along the labels satisfies `Q`. -/
def Always (step : σ → α → Option σ) (Q : σ → α → σ → Prop) : σ → List α → Prop
  | _, [] => True
  | s, a :: as => ∀ t, step s a = some t → Q s a t ∧ Always step Q t as

/-- Two step properties agree over whole runs when they agree on every step from a
state of the invariant `I`, and `I` is kept by the steps that satisfy them. -/
theorem always_congr {I : σ → Prop} {P Q : σ → α → σ → Prop}
    (hPQ : ∀ s a t, I s → step s a = some t → (P s a t ↔ Q s a t))
    (hI : ∀ s a t, I s → step s a = some t → Q s a t → I t) :
    ∀ {as : List α} {s : σ}, I s → (Always step P s as ↔ Always step Q s as) := by
  intro as
  induction as with
  | nil => intro s _; exact Iff.rfl
  | cons a as ih =>
    intro s hs
    constructor
    · intro h t ht
      have hQ := (hPQ s a t hs ht).mp (h t ht).1
      exact ⟨hQ, (ih (hI s a t hs ht hQ)).mp (h t ht).2⟩
    · intro h t ht
      have hQ := (h t ht).1
      exact ⟨(hPQ s a t hs ht).mpr hQ, (ih (hI s a t hs ht hQ)).mpr (h t ht).2⟩

/-! ### The steps of a run -/

/-- The steps taken from `s` along the labels. -/
def trail (step : σ → α → Option σ) : σ → List α → List (σ × α × σ)
  | _, [] => []
  | s, a :: as =>
    match step s a with
    | some t => (s, a, t) :: trail step t as
    | none => []

theorem trail_cons {s t : σ} {a : α} (h : step s a = some t) (as : List α) :
    trail step s (a :: as) = (s, a, t) :: trail step t as := by
  rw [trail, h]

/-- A machine that does not stop in the states of an invariant. -/
theorem exists_run {I : σ → Prop} (hstep : ∀ s a, I s → ∃ t, step s a = some t ∧ I t) :
    ∀ (as : List α) {s : σ}, I s → ∃ t, run step s as = some t ∧ I t := by
  intro as
  induction as with
  | nil => intro s hs; exact ⟨s, rfl, hs⟩
  | cons a as ih =>
    intro s hs
    obtain ⟨u, hu, hI⟩ := hstep s a hs
    obtain ⟨t, ht, hI⟩ := ih hI
    exact ⟨t, run_cons_eq_some.mpr ⟨u, hu, ht⟩, hI⟩

theorem mem_trail {I : σ → Prop} (hstep : ∀ s a t, I s → step s a = some t → I t) :
    ∀ {as : List α} {s : σ}, I s → ∀ x ∈ trail step s as, I x.1 ∧ step x.1 x.2.1 = some x.2.2 := by
  intro as
  induction as with
  | nil => intro s _ x hx; cases hx
  | cons a as ih =>
    intro s hs x hx
    unfold trail at hx
    split at hx
    · next t ht =>
      rcases List.mem_cons.mp hx with rfl | hx
      · exact ⟨hs, ht⟩
      · exact ih (hstep s a t hs ht) x hx
    · cases hx

theorem label_mem_of_mem_trail : ∀ {as : List α} {s : σ}, ∀ x ∈ trail step s as, x.2.1 ∈ as := by
  intro as
  induction as with
  | nil => intro s x hx; cases hx
  | cons a as ih =>
    intro s x hx
    unfold trail at hx
    split at hx
    · rcases List.mem_cons.mp hx with rfl | hx
      · exact List.mem_cons_self
      · exact List.mem_cons_of_mem _ (ih x hx)
    · cases hx

/-- A measure that grows with the steps that `p` selects counts them. -/
theorem count_trail {μ : σ → Nat} {p : σ × α × σ → Bool} :
    ∀ {as : List α} {s t : σ},
      (∀ x ∈ trail step s as, μ x.2.2 = μ x.1 + if p x then 1 else 0) →
      run step s as = some t → μ t = μ s + (trail step s as).countP p := by
  intro as
  induction as with
  | nil =>
    intro s t _ h
    rw [run_nil] at h
    exact Option.some.inj h ▸ rfl
  | cons a as ih =>
    intro s t hx h
    obtain ⟨u, hu, ht⟩ := run_cons_eq_some.mp h
    rw [trail_cons hu] at hx ⊢
    have h1 : μ u = μ s + if p (s, a, u) then 1 else 0 := hx _ List.mem_cons_self
    have h2 := ih (fun x hm => hx x (List.mem_cons_of_mem _ hm)) ht
    rw [List.countP_cons, h2, h1]
    omega

/-- A measure that doubles at the steps that `p` selects, and never falls. -/
theorem pow_count_trail {μ : σ → Nat} {p : σ × α × σ → Bool} :
    ∀ {as : List α} {s t : σ},
      (∀ x ∈ trail step s as, μ x.1 * (if p x then 2 else 1) ≤ μ x.2.2) →
      run step s as = some t → μ s * 2 ^ (trail step s as).countP p ≤ μ t := by
  intro as
  induction as with
  | nil =>
    intro s t _ h
    rw [run_nil] at h
    exact Option.some.inj h ▸ Nat.le_of_eq (Nat.mul_one _)
  | cons a as ih =>
    intro s t hx h
    obtain ⟨u, hu, ht⟩ := run_cons_eq_some.mp h
    rw [trail_cons hu] at hx ⊢
    have h1 : μ s * (if p (s, a, u) then 2 else 1) ≤ μ u := hx _ List.mem_cons_self
    have h2 := ih (fun x hm => hx x (List.mem_cons_of_mem _ hm)) ht
    rw [List.countP_cons, Nat.pow_add, Nat.mul_comm (2 ^ _), ← Nat.mul_assoc]
    refine Nat.le_trans (Nat.mul_le_mul_right _ ?_) h2
    split at h1
    · next hp => simpa [hp] using h1
    · next hp => simpa [hp] using h1

end Steps
