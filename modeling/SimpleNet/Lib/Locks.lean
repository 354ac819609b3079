import SimpleNet.Lib.Run
import Mathlib.Logic.Function.Basic

/-!
# Lock order

Threads run functions that take mutexes in blocks.  Of a function there is only what matters for
this: its blocks, its calls, and the points where it may stay as long as it likes.  A branch is
taken freely, and code that is not known may call every function.

The discipline `Order`: mutexes have ranks; a function has a floor, and what is held where it is
called is of a lower rank than the floor.  `blocked_above`: then a thread waits for a mutex above
all that it has.  `no_deadlock`: while a thread waits for a mutex that is owned, some owner of a
mutex can go on.  `quiet`: a thread that may stay owns nothing.  `brief`: a thread that owns a mutex
gives up all it has within `longest` of its own steps.
-/

open Function (update)

namespace Locks

inductive Stmt (μ φ : Type*)
  | skip
  | seq (a b : Stmt μ φ)
  | alt (a b : Stmt μ φ)
  | star (a : Stmt μ φ)
  | call (f : φ)
  /-- a call of a function that is not known -/
  | any
  /-- a block with a guard -/
  | guard (m : μ) (a : Stmt μ φ)
  /-- it may stay here -/
  | rest

inductive Frame (μ φ : Type*)
  | stmt (a : Stmt μ φ)
  /-- the end of a block -/
  | unlock (m : μ)

def Frame.isUnlock {μ φ : Type*} : Frame μ φ → Bool
  | .stmt _ => false
  | .unlock _ => true

/-- Which way a thread goes. -/
inductive Pick (φ : Type*)
  | next
  | left
  | right
  | fn (f : φ)

variable {θ μ φ : Type*}

/-- What is left to do after a step that touches no mutex. -/
def expand (body : φ → Stmt μ φ) : Stmt μ φ → Pick φ → Option (List (Frame μ φ))
  | .skip, .next => some []
  | .seq a b, .next => some [.stmt a, .stmt b]
  | .alt a _, .left => some [.stmt a]
  | .alt _ b, .right => some [.stmt b]
  | .star _, .left => some []
  | .star a, .right => some [.stmt a, .stmt (.star a)]
  | .call f, .next => some [.stmt (body f)]
  | .any, .fn f => some [.stmt (.call f)]
  | .rest, .next => some []
  | _, _ => none

structure State (θ μ φ : Type*) where
  /-- what the thread has still to do -/
  code : θ → List (Frame μ φ)
  owner : μ → Option θ

namespace State

/-- Every thread may call every function, again and again. -/
def init : State θ μ φ := ⟨fun _ => [.stmt (.star .any)], fun _ => none⟩

variable [DecidableEq θ]

def setCode (s : State θ μ φ) (t : θ) (k : List (Frame μ φ)) : State θ μ φ :=
  { s with code := update s.code t k }

@[simp] theorem setCode_self (s : State θ μ φ) (t : θ) (k : List (Frame μ φ)) :
    (s.setCode t k).code t = k := Function.update_self _ _ _

theorem setCode_of_ne {t u : θ} (s : State θ μ φ) (k : List (Frame μ φ)) (h : u ≠ t) :
    (s.setCode t k).code u = s.code u := Function.update_of_ne h _ _

variable [DecidableEq μ]

/-- The thread takes a step, and goes the way of the pick. -/
def step (body : φ → Stmt μ φ) (s : State θ μ φ) (a : θ × Pick φ) : Option (State θ μ φ) :=
  match s.code a.1 with
  | [] => none
  | .unlock m :: k => some { s.setCode a.1 k with owner := update s.owner m none }
  | .stmt (.guard m b) :: k =>
    if s.owner m = none then
      some { s.setCode a.1 (.stmt b :: .unlock m :: k) with owner := update s.owner m (some a.1) }
    else none
  | .stmt b :: k => (expand body b a.2).map fun l => s.setCode a.1 (l ++ k)

/-- The branches of `step`. -/
inductive Stepped (body : φ → Stmt μ φ) (s : State θ μ φ) (t : θ) : State θ μ φ → Prop
  | unlock {m : μ} {k : List (Frame μ φ)} (hc : s.code t = .unlock m :: k) :
    Stepped body s t { s.setCode t k with owner := update s.owner m none }
  | lock {m : μ} {b : Stmt μ φ} {k : List (Frame μ φ)} (hc : s.code t = .stmt (.guard m b) :: k)
    (ho : s.owner m = none) :
    Stepped body s t
      { s.setCode t (.stmt b :: .unlock m :: k) with owner := update s.owner m (some t) }
  | expand {b : Stmt μ φ} {k l : List (Frame μ φ)} {p : Pick φ} (hc : s.code t = .stmt b :: k)
    (hl : expand body b p = some l) : Stepped body s t (s.setCode t (l ++ k))

/-- The thread has come to a block with a guard of `m`. -/
def AtGuard (s : State θ μ φ) (t : θ) (m : μ) : Prop :=
  ∃ b k, s.code t = .stmt (.guard m b) :: k

/-- The thread has ended, or may stay where it is, or calls a function that is not known. -/
def AtRest (s : State θ μ φ) (t : θ) : Prop :=
  s.code t = [] ∨ ∃ k, s.code t = .stmt .rest :: k ∨ s.code t = .stmt .any :: k

def Owns (s : State θ μ φ) (t : θ) : Prop := ∃ m, s.owner m = some t

/-- The thread can take a step. -/
def CanGo (body : φ → Stmt μ φ) (s : State θ μ φ) (t : θ) : Prop :=
  ∃ p, (s.step body (t, p)).isSome = true

theorem step_stepped {body : φ → Stmt μ φ} {s s' : State θ μ φ} {a : θ × Pick φ} (h : step body s a = some s') : Stepped body s a.1 s' := by
  unfold step at h
  split at h
  · cases h
  · next hc => exact Option.some.inj h ▸ .unlock hc
  · next hc =>
    obtain ⟨ho, hs⟩ := Option.ite_none_right_eq_some.mp h
    exact Option.some.inj hs ▸ .lock hc ho
  · next hc =>
    obtain ⟨l, hl, rfl⟩ := Option.map_eq_some_iff.mp h
    exact .expand hc hl

end State

/-! ### The discipline -/

/-- The ranks of the mutexes, and for each function the rank under which everything is that is held
where it is called, and a bound of its steps if it is called with something held. -/
structure Order (μ φ : Type*) where
  rank : μ → Nat
  floor : φ → Nat
  cost : φ → Nat
  /-- a bound of the ranks -/
  top : Nat
  /-- a bound of the steps in a block -/
  longest : Nat

namespace Order

variable (O : Order μ φ)

/-- A bound of the steps of a statement without a loop. -/
def size : Stmt μ φ → Nat
  | .skip | .star _ | .any | .rest => 1
  | .seq a b => size a + size b + 1
  | .alt a b => max (size a) (size b) + 1
  | .call f => O.cost f + 1
  | .guard _ a => size a + 2

/-- The statement keeps the order where all that is held is of a rank below `n`. -/
def Keeps : Nat → Stmt μ φ → Prop
  | _, .skip => True
  | n, .seq a b => Keeps n a ∧ Keeps n b
  | n, .alt a b => Keeps n a ∧ Keeps n b
  | n, .star a => n = 0 ∧ Keeps 0 a
  | n, .call f => n ≤ O.floor f
  | n, .any => n = 0
  | n, .guard m a => n ≤ O.rank m ∧ O.size a < O.longest ∧ Keeps (O.rank m + 1) a
  | n, .rest => n = 0

/-- The functions keep the order. -/
structure Obeyed (body : φ → Stmt μ φ) : Prop where
  keeps : ∀ f, O.Keeps (O.floor f) (body f)
  size_le : ∀ f, 0 < O.floor f → O.size (body f) ≤ O.cost f
  rank_lt : ∀ m, O.rank m < O.top

def frameSize : Frame μ φ → Nat
  | .stmt a => O.size a
  | .unlock _ => 1

def sizes : List (Frame μ φ) → Nat
  | [] => 0
  | x :: l => O.frameSize x + sizes l

/-- A bound of the steps up to the end of the last block. -/
def left : List (Frame μ φ) → Nat
  | [] => 0
  | x :: k => if (x :: k).any Frame.isUnlock then O.frameSize x + left k else 0

/-- The thread with these mutexes, the last one first, keeps the order in all that it has to do. -/
def Fits : List μ → List (Frame μ φ) → Prop
  | held, [] => held = []
  | held, .stmt a :: k => (∃ n, (∀ m ∈ held, O.rank m < n) ∧ O.Keeps n a) ∧ Fits held k
  | held, .unlock m :: k =>
    ∃ held', held = m :: held' ∧ (∀ x ∈ held', O.rank x < O.rank m) ∧ Fits held' k

variable {O} {body : φ → Stmt μ φ} {held : List μ} {a : Stmt μ φ} {p : Pick φ}
  {k l : List (Frame μ φ)} {n : Nat}

/-- The mutexes of a thread have different ranks. -/
theorem Fits.rank_ne : ∀ {k : List (Frame μ φ)} {held : List μ}, O.Fits held k →
    ∀ m ∈ held, ∀ n ∈ held, m ≠ n → O.rank m ≠ O.rank n := by
  intro k
  induction k with
  | nil => intro held h m hm; exact absurd hm ((show held = [] from h) ▸ List.not_mem_nil)
  | cons x k ih =>
    intro held h
    cases x with
    | stmt a => exact ih h.2
    | unlock y =>
      obtain ⟨held', rfl, hr, hk⟩ := h
      intro m hm n hn hne
      rcases List.mem_cons.mp hm with rfl | hm'
      · rcases List.mem_cons.mp hn with rfl | hn'
        · exact absurd rfl hne
        · exact Nat.ne_of_gt (hr n hn')
      · rcases List.mem_cons.mp hn with rfl | hn'
        · exact Nat.ne_of_lt (hr m hm')
        · exact ih hk m hm' n hn' hne

theorem fits_expand (hO : O.Obeyed body) (hn : ∀ m ∈ held, O.rank m < n) (ha : O.Keeps n a)
    (hl : expand body a p = some l) (hk : O.Fits held k) : O.Fits held (l ++ k) := by
  unfold expand at hl
  split at hl
  all_goals cases hl
  · exact hk
  · exact ⟨⟨n, hn, ha.1⟩, ⟨n, hn, ha.2⟩, hk⟩
  · exact ⟨⟨n, hn, ha.1⟩, hk⟩
  · exact ⟨⟨n, hn, ha.2⟩, hk⟩
  · exact hk
  · obtain ⟨rfl, ha⟩ := ha
    exact ⟨⟨0, hn, ha⟩, ⟨0, hn, rfl, ha⟩, hk⟩
  · next f => exact ⟨⟨O.floor f, fun m hm => Nat.lt_of_lt_of_le (hn m hm) ha, hO.keeps f⟩, hk⟩
  · exact ⟨⟨n, hn, ha ▸ Nat.zero_le _⟩, hk⟩
  · exact hk

theorem any_isUnlock_iff : ∀ {k : List (Frame μ φ)} {held : List μ}, O.Fits held k →
    (k.any Frame.isUnlock = true ↔ held ≠ []) := by
  intro k
  induction k with
  | nil => intro held h; simp [show held = [] from h]
  | cons x k ih =>
    intro held h
    cases x with
    | stmt a => simpa [Frame.isUnlock] using ih h.2
    | unlock m =>
      obtain ⟨held', rfl, -⟩ := h
      simp [Frame.isUnlock]

theorem left_eq_zero (h : k.any Frame.isUnlock = false) : O.left k = 0 := by
  cases k with
  | nil => rfl
  | cons x k => rw [left, if_neg (by simp [h])]

theorem left_append (h : k.any Frame.isUnlock = true) : ∀ l : List (Frame μ φ),
    O.left (l ++ k) = O.sizes l + O.left k := by
  intro l
  induction l with
  | nil => simp [sizes]
  | cons x l ih =>
    have hx : (x :: (l ++ k)).any Frame.isUnlock = true := by simp [h]
    rw [List.cons_append, left, if_pos hx, ih]
    simp only [sizes]
    omega

/-- A step without a loop makes what is left smaller. -/
theorem sizes_expand (hO : O.Obeyed body) (hn : 0 < n) (ha : O.Keeps n a)
    (hl : expand body a p = some l) : O.sizes l < O.size a := by
  unfold expand at hl
  split at hl
  all_goals cases hl
  all_goals simp only [sizes, frameSize, size]
  any_goals omega
  · exact absurd ha.1 (Nat.ne_of_gt hn)
  · next f =>
    have := hO.size_le f (Nat.lt_of_lt_of_le hn ha)
    omega
  · exact absurd ha (Nat.ne_of_gt hn)

end Order

/-! ### Runs -/

namespace State

variable {O : Order μ φ} {body : φ → Stmt μ φ} {s s' : State θ μ φ} {t u : θ} {m n : μ}

/-- What a thread has to do fits the mutexes that it owns. -/
def Orderly (O : Order μ φ) (s : State θ μ φ) : Prop :=
  ∀ t, ∃ held, O.Fits held (s.code t) ∧ (∀ m, s.owner m = some t ↔ m ∈ held) ∧
    O.left (s.code t) ≤ O.longest

theorem orderly_init : (init : State θ μ φ).Orderly O := fun _ =>
  ⟨[], ⟨⟨0, nofun, rfl, rfl⟩, rfl⟩, fun _ => ⟨nofun, nofun⟩, Nat.zero_le _⟩

/-- A thread waits for a mutex above all that it has. -/
theorem blocked_above (hs : s.Orderly O) (hg : s.AtGuard t m) (ho : s.owner n = some t) :
    O.rank n < O.rank m := by
  obtain ⟨held, hf, hm, -⟩ := hs t
  obtain ⟨b, k, hc⟩ := hg
  rw [hc] at hf
  obtain ⟨⟨r, hr, hb⟩, -⟩ := hf
  exact Nat.lt_of_lt_of_le (hr n ((hm n).mp ho)) hb.1

/-- A thread does not own two mutexes of one rank. -/
theorem rank_ne (hs : s.Orderly O) (hm : s.owner m = some t) (hn : s.owner n = some t)
    (h : m ≠ n) : O.rank m ≠ O.rank n := by
  obtain ⟨held, hf, hheld, -⟩ := hs t
  exact hf.rank_ne m ((hheld m).mp hm) n ((hheld n).mp hn) h

/-- A thread that may stay where it is owns nothing. -/
theorem quiet (hs : s.Orderly O) (hr : s.AtRest t) (m : μ) : s.owner m ≠ some t := by
  intro ho
  obtain ⟨held, hf, hm, -⟩ := hs t
  have hmem := (hm m).mp ho
  rcases hr with hc | ⟨k, hc | hc⟩
  · rw [hc] at hf
    obtain rfl : held = [] := hf
    exact List.not_mem_nil hmem
  · rw [hc] at hf
    obtain ⟨⟨r, hr, hb⟩, -⟩ := hf
    obtain rfl : r = 0 := hb
    exact Nat.not_lt_zero _ (hr m hmem)
  · rw [hc] at hf
    obtain ⟨⟨r, hr, hb⟩, -⟩ := hf
    obtain rfl : r = 0 := hb
    exact Nat.not_lt_zero _ (hr m hmem)

variable [DecidableEq θ] [DecidableEq μ]

/-- A thread that owns a mutex comes nearer to the end of its blocks. -/
theorem left_lt {held : List μ} (hO : O.Obeyed body) (hf : O.Fits held (s.code t)) (hh : held ≠ [])
    (h : Stepped body s t s') : O.left (s'.code t) < O.left (s.code t) := by
  have hu := (O.any_isUnlock_iff hf).mpr hh
  cases h with
  | @unlock m k hc =>
    rw [hc] at hu ⊢
    rw [Order.left, if_pos hu]
    simp only [setCode_self, Order.frameSize]
    omega
  | @lock m b k hc ho =>
    rw [hc] at hu ⊢
    have hk : k.any Frame.isUnlock = true := by simpa [Frame.isUnlock] using hu
    have h1 := O.left_append hk [.stmt (.guard m b)]
    have h2 := O.left_append hk [.stmt b, .unlock m]
    simp only [Order.sizes, Order.frameSize, Order.size, List.cons_append, List.nil_append] at h1 h2
    simp only [setCode_self]
    omega
  | @expand b k l p hc he =>
    rw [hc] at hu hf ⊢
    have hk : k.any Frame.isUnlock = true := by simpa [Frame.isUnlock] using hu
    obtain ⟨⟨n, hn, hb⟩, -⟩ := hf
    obtain ⟨m, hm⟩ := List.exists_mem_of_ne_nil held hh
    have h1 := O.left_append hk [.stmt b]
    have h2 := O.left_append hk l
    have h3 := Order.sizes_expand hO (Nat.zero_lt_of_lt (hn m hm)) hb he
    simp only [Order.sizes, Order.frameSize, List.cons_append, List.nil_append] at h1 h2 h3
    simp only [setCode_self]
    omega

/-- The mutexes of the other threads stay as they are. -/
theorem owner_of_ne (hs : s.Orderly O) (hu : u ≠ t) (h : Stepped body s t s') (m : μ) :
    s'.owner m = some u ↔ s.owner m = some u := by
  cases h with
  | @unlock x k hc =>
    obtain ⟨held, hf, hm, -⟩ := hs t
    rw [hc] at hf
    obtain ⟨held', rfl, -⟩ := hf
    by_cases hx : m = x
    · subst hx
      simp [(hm m).mpr List.mem_cons_self, hu.symm]
    · simp [Function.update_of_ne hx]
  | @lock x b k hc ho =>
    by_cases hx : m = x
    · subst hx
      simp [ho, hu.symm]
    · simp [Function.update_of_ne hx]
  | expand hc he => exact Iff.rfl

theorem code_of_ne (hu : u ≠ t) (h : Stepped body s t s') : s'.code u = s.code u := by
  cases h with
  | unlock _ => exact setCode_of_ne _ _ hu
  | lock _ _ => exact setCode_of_ne _ _ hu
  | expand _ _ => exact setCode_of_ne _ _ hu

theorem orderly_step (hO : O.Obeyed body) (hs : s.Orderly O) (h : Stepped body s t s') :
    s'.Orderly O := by
  intro u
  obtain ⟨held, hf, hm, hl⟩ := hs u
  by_cases hu : u = t
  · subst hu
    have hl' : held ≠ [] → O.left (s'.code u) ≤ O.longest := fun hh =>
      Nat.le_trans (Nat.le_of_lt (left_lt hO hf hh h)) hl
    cases h with
    | @unlock m k hc =>
      rw [hc] at hf
      obtain ⟨held', rfl, hr, hk⟩ := hf
      have hn : m ∉ held' := fun hx => Nat.lt_irrefl _ (hr m hx)
      refine ⟨held', by simpa using hk, fun x => ?_, hl' (List.cons_ne_nil _ _)⟩
      by_cases hx : x = m
      · subst hx
        simp [hn]
      · simpa [Function.update_of_ne hx, hx] using hm x
    | @lock m b k hc ho =>
      rw [hc] at hf
      obtain ⟨⟨n, hn, hr, hb, hk⟩, hf⟩ := hf
      have hheld : ∀ x ∈ held, O.rank x < O.rank m := fun x hx =>
        Nat.lt_of_lt_of_le (hn x hx) hr
      refine ⟨m :: held, ?_, fun x => ?_, ?_⟩
      · have hrank : ∀ x ∈ m :: held, O.rank x < O.rank m + 1 := by
          intro x hx
          rcases List.mem_cons.mp hx with rfl | hx
          · exact Nat.lt_succ_self _
          · exact Nat.lt_succ_of_lt (hheld x hx)
        rw [setCode_self]
        exact ⟨⟨_, hrank, hk⟩, held, rfl, hheld, hf⟩
      · by_cases hx : x = m
        · subst hx
          simp
        · simpa [Function.update_of_ne hx, hx] using hm x
      · by_cases hh : held = []
        · -- the outermost block: all that is left is the block itself
          subst hh
          have hk : k.any Frame.isUnlock = false := by
            simpa using mt (O.any_isUnlock_iff hf).mp (fun h => h rfl)
          simp [Order.left, Frame.isUnlock, O.left_eq_zero hk, Order.frameSize]
          omega
        · exact hl' hh
    | @expand b k l p hc he =>
      rw [hc] at hf
      obtain ⟨⟨n, hn, hb⟩, hf⟩ := hf
      have hf' := O.fits_expand hO hn hb he hf
      refine ⟨held, by simpa using hf', hm, ?_⟩
      by_cases hh : held = []
      · subst hh
        have hk : (l ++ k).any Frame.isUnlock = false := by
          simpa using mt (O.any_isUnlock_iff hf').mp (fun h => h rfl)
        rw [setCode_self, O.left_eq_zero hk]
        exact Nat.zero_le _
      · exact hl' hh
  · have hc := code_of_ne hu h
    refine ⟨held, hc ▸ hf, fun m => (owner_of_ne hs hu h m).trans (hm m), hc ▸ hl⟩

theorem orderly_run (hO : O.Obeyed body) {as : List (θ × Pick φ)}
    (h : Steps.run (step body) init as = some s) : s.Orderly O :=
  Steps.run_invariant (fun _ _ _ hs h => orderly_step hO hs (step_stepped h)) orderly_init h

/-- An owner that does not wait for an owned mutex can go on. -/
theorem canGo_of_owns (hs : s.Orderly O) (ho : s.owner m = some t)
    (hg : ∀ n, s.AtGuard t n → s.owner n = none) : s.CanGo body t := by
  have hq : ¬ s.AtRest t := fun hr => quiet hs hr m ho
  unfold CanGo step
  cases hc : s.code t with
  | nil => exact absurd (Or.inl hc) hq
  | cons x k =>
    cases x with
    | unlock n => exact ⟨.next, by simp [hc]⟩
    | stmt b =>
      cases b with
      | skip | seq | call => exact ⟨.next, by simp [hc, expand]⟩
      | alt | star => exact ⟨.left, by simp [hc, expand]⟩
      | any => exact absurd (Or.inr ⟨k, Or.inr hc⟩) hq
      | guard n b => exact ⟨.next, by simp [hc, hg n ⟨b, k, hc⟩]⟩
      | rest => exact absurd (Or.inr ⟨k, Or.inl hc⟩) hq

/-- **No deadlock.**  While a mutex is owned, some owner can go on. -/
theorem no_deadlock (hO : O.Obeyed body) (hs : s.Orderly O) (ho : s.owner m = some t) :
    ∃ u n, s.owner n = some u ∧ s.CanGo body u := by
  induction hk : O.top - O.rank m using Nat.strongRecOn generalizing m t with
  | ind k ih =>
    by_cases hg : ∀ n, s.AtGuard t n → s.owner n = none
    · exact ⟨t, m, ho, canGo_of_owns hs ho hg⟩
    · -- the owner waits itself: for a mutex above, which has an owner
      push Not at hg
      obtain ⟨n, hn, hu⟩ := hg
      obtain ⟨u, hu⟩ := Option.ne_none_iff_exists'.mp hu
      have h1 := blocked_above hs hn ho
      have h2 := hO.rank_lt n
      exact ih _ (by omega) hu rfl

/-- **A block is short.**  The steps of a thread from one at which it owns a mutex to the next at
which it owns none. -/
theorem brief (hO : O.Obeyed body) : ∀ {as : List (θ × Pick φ)} {s s' : State θ μ φ},
    s.Orderly O → Steps.run (step body) s as = some s' →
    (∀ x ∈ Steps.trail (step body) s as, x.1.Owns t) →
    as.countP (·.1 = t) + O.left (s'.code t) ≤ O.left (s.code t) := by
  intro as
  induction as with
  | nil =>
    intro s s' _ h _
    rw [Steps.run_nil] at h
    obtain rfl := Option.some.inj h
    simp
  | cons a as ih =>
    intro s s' hs h hx
    obtain ⟨r, hr, h⟩ := Steps.run_cons_eq_some.mp h
    rw [Steps.trail_cons hr] at hx
    have h1 := ih (orderly_step hO hs (step_stepped hr)) h
      (fun x hm => hx x (List.mem_cons_of_mem _ hm))
    rw [List.countP_cons]
    by_cases ha : a.1 = t
    · obtain ⟨m, hm⟩ := hx _ List.mem_cons_self
      obtain ⟨held, hf, hheld, -⟩ := hs t
      have h2 := left_lt hO hf (List.ne_nil_of_mem ((hheld m).mp hm)) (ha ▸ step_stepped hr)
      simp only [ha, decide_true, if_true]
      omega
    · have hc := code_of_ne (Ne.symm ha) (step_stepped hr)
      rw [hc] at h1
      simpa [ha] using h1

theorem countP_le (hO : O.Obeyed body) {as : List (θ × Pick φ)} (hs : s.Orderly O)
    (h : Steps.run (step body) s as = some s')
    (hx : ∀ x ∈ Steps.trail (step body) s as, x.1.Owns t) :
    as.countP (·.1 = t) ≤ O.longest := by
  have h1 := brief hO hs h hx
  obtain ⟨held, -, -, h2⟩ := hs t
  omega

end State

end Locks
