import SimpleNet.Lib.Refine
import Mathlib.Logic.Function.Basic

/-!
# Critical sections

Threads share data under a mutex with a condition.  A thread that calls an operation `o` waits for
the mutex and goes through the instructions `code o` while it owns it: accesses of the data, and
`await p`, which is `while (p) wait()`.  A thread that waits gives the mutex away; it may wake up at
any time, also without a signal, and then competes for the mutex again.

`refines_atomic`: every interleaving is a run in which a thread does all its instructions up to its
next wait at once, when it gets the mutex.  `serial`: where no operation waits, the data are those
after the operations one by one, in the order in which they got the mutex.
-/

open Function (update)

namespace Monitor

inductive Instr (δ : Type*)
  | access (f : δ → δ)
  | await (p : δ → Bool)

/-- The instructions as far as they go at once: what is left of them, and the data. -/
def burst {δ : Type*} : List (Instr δ) → δ → List (Instr δ) × δ
  | [], d => ([], d)
  | .access f :: is, d => burst is (f d)
  | .await p :: is, d => if p d then (.await p :: is, d) else burst is d

/-- Where a thread is in an operation. -/
inductive Stage (ω δ : Type*)
  | out
  /-- it waits for the mutex -/
  | waiting (o : ω) (is : List (Instr δ))
  | inside (o : ω) (is : List (Instr δ))
  | asleep (o : ω) (is : List (Instr δ))

inductive Act (θ ω : Type*)
  | call (n : θ) (o : ω)
  | acquire (n : θ)
  /-- the next instruction -/
  | go (n : θ)
  | wake (n : θ)
  | release (n : θ)

end Monitor

structure Monitor (θ ω δ : Type*) where
  data : δ
  owner : Option θ
  stage : θ → Monitor.Stage ω δ

namespace Monitor

variable {θ ω δ : Type*} [DecidableEq θ]

def init (d : δ) : Monitor θ ω δ := ⟨d, none, fun _ => .out⟩

def setStage (s : Monitor θ ω δ) (n : θ) (x : Stage ω δ) : Monitor θ ω δ :=
  { s with stage := update s.stage n x }

def step (code : ω → List (Instr δ)) (s : Monitor θ ω δ) : Act θ ω → Option (Monitor θ ω δ)
  | .call n o =>
    match s.stage n with
    | .out => some (s.setStage n (.waiting o (code o)))
    | _ => none
  | .acquire n =>
    match s.stage n, s.owner with
    | .waiting o is, none => some { s.setStage n (.inside o is) with owner := some n }
    | _, _ => none
  | .go n =>
    match s.stage n with
    | .inside o (.access f :: is) => some { s.setStage n (.inside o is) with data := f s.data }
    | .inside o (.await p :: is) =>
      if p s.data then some { s.setStage n (.asleep o (.await p :: is)) with owner := none }
      else some (s.setStage n (.inside o is))
    | _ => none
  | .wake n =>
    match s.stage n with
    | .asleep o is => some (s.setStage n (.waiting o is))
    | _ => none
  | .release n =>
    match s.stage n with
    | .inside _ [] => some { s.setStage n .out with owner := none }
    | _ => none

/-- The branches of `step`. -/
inductive Stepped (code : ω → List (Instr δ)) (s : Monitor θ ω δ) : Act θ ω → Monitor θ ω δ → Prop
  | call {n : θ} {o : ω} (hs : s.stage n = .out) :
    Stepped code s (.call n o) (s.setStage n (.waiting o (code o)))
  | acquire {n : θ} {o : ω} {is : List (Instr δ)} (hs : s.stage n = .waiting o is)
    (ho : s.owner = none) :
    Stepped code s (.acquire n) { s.setStage n (.inside o is) with owner := some n }
  | access {n : θ} {o : ω} {f : δ → δ} {is : List (Instr δ)}
    (hs : s.stage n = .inside o (.access f :: is)) :
    Stepped code s (.go n) { s.setStage n (.inside o is) with data := f s.data }
  | sleep {n : θ} {o : ω} {p : δ → Bool} {is : List (Instr δ)}
    (hs : s.stage n = .inside o (.await p :: is)) (hp : p s.data = true) :
    Stepped code s (.go n) { s.setStage n (.asleep o (.await p :: is)) with owner := none }
  | pass {n : θ} {o : ω} {p : δ → Bool} {is : List (Instr δ)}
    (hs : s.stage n = .inside o (.await p :: is)) (hp : p s.data = false) :
    Stepped code s (.go n) (s.setStage n (.inside o is))
  | wake {n : θ} {o : ω} {is : List (Instr δ)} (hs : s.stage n = .asleep o is) :
    Stepped code s (.wake n) (s.setStage n (.waiting o is))
  | release {n : θ} {o : ω} (hs : s.stage n = .inside o []) :
    Stepped code s (.release n) { s.setStage n .out with owner := none }

section

variable {code : ω → List (Instr δ)} {s t : Monitor θ ω δ} {a : Act θ ω} {m n : θ}

theorem step_stepped (h : step code s a = some t) : Stepped code s a t := by
  cases a with
  | call n o =>
    simp only [step] at h
    split at h
    · next hs => exact Option.some.inj h ▸ .call hs
    · cases h
  | acquire n =>
    simp only [step] at h
    split at h
    · next hs ho => exact Option.some.inj h ▸ .acquire hs ho
    · cases h
  | go n =>
    simp only [step] at h
    split at h
    · next hs => exact Option.some.inj h ▸ .access hs
    · next hs =>
      split at h
      · next hp => exact Option.some.inj h ▸ .sleep hs hp
      · next hp => exact Option.some.inj h ▸ .pass hs ((Bool.not_eq_true _).mp hp)
    · cases h
  | wake n =>
    simp only [step] at h
    split at h
    · next hs => exact Option.some.inj h ▸ .wake hs
    · cases h
  | release n =>
    simp only [step] at h
    split at h
    · next hs => exact Option.some.inj h ▸ .release hs
    · cases h

/-! ### Mutual exclusion -/

/-- The thread is in its critical section. -/
def Stage.Inside : Stage ω δ → Prop
  | .inside _ _ => True
  | _ => False

/-- The owner of the mutex is the one thread inside. -/
def Exclusive (s : Monitor θ ω δ) : Prop := ∀ n, (s.stage n).Inside ↔ s.owner = some n

theorem setStage_self (s : Monitor θ ω δ) (n : θ) (x : Stage ω δ) : (s.setStage n x).stage n = x :=
  Function.update_self _ _ _

theorem setStage_of_ne (s : Monitor θ ω δ) (x : Stage ω δ) (h : m ≠ n) :
    (s.setStage n x).stage m = s.stage m :=
  Function.update_of_ne h _ _

/-- A step of a thread that owns the mutex before it, after it, or not at all. -/
theorem Exclusive.setStage (h : Exclusive s) {x : Stage ω δ} {d : δ} {p : Option θ}
    (hx : x.Inside ↔ p = some n) (hp : ∀ m ≠ n, s.owner = some m ↔ p = some m) :
    Exclusive { s.setStage n x with data := d, owner := p } := by
  intro m
  show ((s.setStage n x).stage m).Inside ↔ _
  by_cases hm : m = n
  · subst hm
    rw [setStage_self]
    exact hx
  · rw [setStage_of_ne s x hm, h m]
    exact hp m hm

theorem exclusive_stepped (h : Exclusive s) (hst : Stepped code s a t) : Exclusive t := by
  have howner : ∀ {n o is}, s.stage n = .inside o is → s.owner = some n := fun hs =>
    (h _).mp (by rw [hs]; trivial)
  have hnot : ∀ {n}, ¬ (s.stage n).Inside → ¬ s.owner = some n := fun hs ho => hs ((h _).mpr ho)
  cases hst with
  | call hs =>
    exact h.setStage ⟨nofun, fun ho => hnot (by rw [hs]; exact id) ho⟩ fun _ _ => Iff.rfl
  | @acquire n o is hs ho =>
    refine h.setStage ⟨fun _ => rfl, fun _ => trivial⟩ fun m hm => ?_
    rw [ho]
    exact ⟨nofun, fun he => absurd (Option.some.inj he).symm hm⟩
  | access hs =>
    exact h.setStage ⟨fun _ => howner hs, fun _ => trivial⟩ fun _ _ => Iff.rfl
  | @sleep n o p is hs hp =>
    refine h.setStage ⟨nofun, nofun⟩ fun m hm => ?_
    rw [howner hs]
    exact ⟨fun he => absurd (Option.some.inj he).symm hm, nofun⟩
  | pass hs hp =>
    exact h.setStage ⟨fun _ => howner hs, fun _ => trivial⟩ fun _ _ => Iff.rfl
  | wake hs =>
    exact h.setStage ⟨nofun, fun ho => hnot (by rw [hs]; exact id) ho⟩ fun _ _ => Iff.rfl
  | @release n o hs =>
    refine h.setStage ⟨nofun, nofun⟩ fun m hm => ?_
    rw [howner hs]
    exact ⟨fun he => absurd (Option.some.inj he).symm hm, nofun⟩

omit [DecidableEq θ] in
theorem exclusive_init (d : δ) : Exclusive (init d : Monitor θ ω δ) := fun _ => ⟨nofun, nofun⟩

end

/-! ### Instructions at once -/

/-- The shared data, and for each thread in an operation what is left of it. -/
@[ext]
structure Atomic (θ ω δ : Type*) where
  data : δ
  todo : θ → Option (ω × List (Instr δ))

inductive Mark (θ ω : Type*)
  | call (n : θ) (o : ω)
  | burst (n : θ)
  | ret (n : θ)
  | quiet

/-- The steps of threads that do their instructions at once. -/
inductive Atomic.Step (code : ω → List (Instr δ)) (s : Atomic θ ω δ) : Mark θ ω → Atomic θ ω δ → Prop
  | call {n : θ} {o : ω} (hs : s.todo n = none) :
    Step code s (.call n o) { s with todo := update s.todo n (some (o, code o)) }
  | burst {n : θ} {o : ω} {is : List (Instr δ)} (hs : s.todo n = some (o, is)) :
    Step code s (.burst n)
      ⟨(Monitor.burst is s.data).2, update s.todo n (some (o, (Monitor.burst is s.data).1))⟩
  | ret {n : θ} {o : ω} (hs : s.todo n = some (o, [])) :
    Step code s (.ret n) { s with todo := update s.todo n none }
  | quiet : Step code s .quiet s

/-- What the thread does before it waits again is taken as done. -/
def Stage.todo (d : δ) : Stage ω δ → Option (ω × List (Instr δ))
  | .out => none
  | .waiting o is | .asleep o is => some (o, is)
  | .inside o is => some (o, (burst is d).1)

def Stage.data (d : δ) : Stage ω δ → δ
  | .inside _ is => (burst is d).2
  | _ => d

def atomic (s : Monitor θ ω δ) : Atomic θ ω δ where
  data := s.owner.elim s.data fun n => (s.stage n).data s.data
  todo n := (s.stage n).todo s.data

def mark : Act θ ω → Mark θ ω
  | .call n o => .call n o
  | .acquire n => .burst n
  | .release n => .ret n
  | .go _ | .wake _ => .quiet

section

variable {code : ω → List (Instr δ)} {s t : Monitor θ ω δ} {a : Act θ ω} {m n : θ} {o : ω}
  {is : List (Instr δ)} {x : Stage ω δ} {d : δ} {p : Option θ}

omit [DecidableEq θ] in
theorem Stage.todo_of_not_inside (h : ¬ x.Inside) (d e : δ) : x.todo d = x.todo e := by
  cases x with
  | inside o is => exact absurd trivial h
  | _ => rfl

/-- Only the thread that takes the step is seen to take it. -/
theorem todo_stage (s : Monitor θ ω δ) (n : θ) (x : Stage ω δ) (hs : t.stage = update s.stage n x)
    (h : ∀ m ≠ n, ¬ (s.stage m).Inside ∨ t.data = s.data) :
    (atomic t).todo = update (atomic s).todo n (x.todo t.data) := by
  funext m
  show (t.stage m).todo t.data = _
  rw [hs]
  by_cases hm : m = n
  · subst hm
    rw [Function.update_self, Function.update_self]
  · rw [Function.update_of_ne hm, Function.update_of_ne hm]
    rcases h m hm with hx | hd
    · exact Stage.todo_of_not_inside hx t.data s.data
    · rw [hd]
      rfl

omit [DecidableEq θ] in
theorem atomic_inside (h : Exclusive s) (hs : s.stage n = .inside o is) :
    (atomic s).data = (burst is s.data).2 ∧ ∀ m ≠ n, ¬ (s.stage m).Inside := by
  have ho : s.owner = some n := (h n).mp (by rw [hs]; trivial)
  refine ⟨by simp only [atomic, ho, Option.elim_some, hs, Stage.data], ?_⟩
  intro m hm hx
  exact hm (Option.some.inj (((h m).mp hx).symm.trans ho))

omit [DecidableEq θ] in
theorem atomic_outside (h : Exclusive s) (ho : s.owner = none) :
    (atomic s).data = s.data ∧ ∀ m, ¬ (s.stage m).Inside := by
  refine ⟨by simp only [atomic, ho, Option.elim_none], ?_⟩
  intro m hx
  rw [(h m).mp hx] at ho
  cases ho

/-- A step of a thread that does not own the mutex leaves the data of the others' operations. -/
theorem data_setStage (h : Exclusive s) (hs : ¬ (s.stage n).Inside) :
    (atomic (s.setStage n x)).data = (atomic s).data := by
  cases ho : s.owner with
  | none => simp only [atomic, setStage, ho, Option.elim_none]
  | some m =>
    have hm : m ≠ n := by
      rintro rfl
      exact hs ((h m).mpr ho)
    show s.owner.elim s.data (fun j => ((s.setStage n x).stage j).data s.data) = _
    rw [atomic, ho, Option.elim_some, setStage_of_ne s x hm]
    rfl

/-- A step that changes neither the data nor what is left of the operations. -/
theorem quiet_step (hd : (atomic t).data = (atomic s).data) (hs : t.stage = update s.stage n x)
    (h : ∀ m ≠ n, ¬ (s.stage m).Inside ∨ t.data = s.data)
    (hx : x.todo t.data = (s.stage n).todo s.data) :
    Atomic.Step code (atomic s) .quiet (atomic t) := by
  have htodo : (atomic t).todo = (atomic s).todo := by
    rw [todo_stage s n x hs h, hx]
    exact Function.update_eq_self n _
  rw [Atomic.ext hd htodo]
  exact .quiet

theorem atomic_step (h : Exclusive s) (hst : Stepped code s a t) :
    Atomic.Step code (atomic s) (mark a) (atomic t) := by
  have ht := exclusive_stepped h hst
  cases hst with
  | @call n o hs =>
    have hnot : ¬ (s.stage n).Inside := by
      rw [hs]
      exact id
    have htodo : (atomic s).todo n = none := by
      show (s.stage n).todo s.data = none
      rw [hs]
      rfl
    have heq : atomic (s.setStage n (.waiting o (code o))) =
        { atomic s with todo := update (atomic s).todo n (some (o, code o)) } :=
      Atomic.ext (data_setStage h hnot) (todo_stage s n (.waiting o (code o)) rfl fun _ _ => Or.inr rfl)
    rw [heq]
    exact .call htodo
  | @acquire n o is hs ho =>
    obtain ⟨hd, -⟩ := atomic_outside h ho
    have hset : ({ s.setStage n (.inside o is) with owner := some n } : Monitor θ ω δ).stage n =
        .inside o is := setStage_self s n _
    have htodo : (atomic s).todo n = some (o, is) := by
      show (s.stage n).todo s.data = _
      rw [hs]
      rfl
    have heq : atomic { s.setStage n (.inside o is) with owner := some n } =
        ⟨(burst is (atomic s).data).2,
          update (atomic s).todo n (some (o, (burst is (atomic s).data).1))⟩ := by
      rw [hd]
      exact Atomic.ext (atomic_inside ht hset).1 (todo_stage s n (.inside o is) rfl fun _ _ => Or.inr rfl)
    rw [heq]
    exact .burst htodo
  | @access n o f is hs =>
    obtain ⟨hd, hrest⟩ := atomic_inside h hs
    have hset : ({ s.setStage n (.inside o is) with data := f s.data } : Monitor θ ω δ).stage n =
        .inside o is := setStage_self s n _
    refine quiet_step ?_ rfl (fun m hm => Or.inl (hrest m hm)) (by rw [hs]; rfl)
    rw [(atomic_inside ht hset).1, hd]
    rfl
  | @sleep n o p is hs hp =>
    refine quiet_step ?_ rfl (fun _ _ => Or.inr rfl) ?_
    · rw [(atomic_outside ht rfl).1, (atomic_inside h hs).1, burst, if_pos hp]
      rfl
    · rw [hs, Stage.todo, Stage.todo, burst, if_pos hp]
  | @pass n o p is hs hp =>
    have hp' : ¬ p s.data = true := by
      rw [hp]
      exact Bool.false_ne_true
    have hset : (s.setStage n (.inside o is)).stage n = .inside o is := setStage_self s n _
    refine quiet_step ?_ rfl (fun _ _ => Or.inr rfl) ?_
    · rw [(atomic_inside ht hset).1, (atomic_inside h hs).1, burst, if_neg hp']
      rfl
    · rw [hs, Stage.todo, Stage.todo, burst, if_neg hp']
      rfl
  | @wake n o is hs =>
    have hnot : ¬ (s.stage n).Inside := by
      rw [hs]
      exact id
    exact quiet_step (data_setStage h hnot) rfl (fun _ _ => Or.inr rfl) (by rw [hs]; rfl)
  | @release n o hs =>
    obtain ⟨hd, -⟩ := atomic_inside h hs
    have htodo : (atomic s).todo n = some (o, []) := by
      show (s.stage n).todo s.data = _
      rw [hs]
      rfl
    have heq : atomic { s.setStage n .out with owner := none } =
        { atomic s with todo := update (atomic s).todo n none } := by
      refine Atomic.ext ?_ (todo_stage s n .out rfl fun _ _ => Or.inr rfl)
      rw [(atomic_outside ht rfl).1, hd]
      rfl
    rw [heq]
    exact .ret htodo

/-- **Every interleaving is a run of instructions at once.** -/
theorem refines_atomic {as : List (Act θ ω)} (hs : Exclusive s)
    (hrun : Steps.run (step code) s as = some t) :
    Exclusive t ∧ Steps.Runs (Atomic.Step code) (atomic s) (as.map mark) (atomic t) := by
  have hex : ∀ (s : Monitor θ ω δ) a t, Exclusive s → step code s a = some t → Exclusive t := fun _ _ _ h hst =>
    exclusive_stepped h (step_stepped hst)
  refine ⟨Steps.run_invariant hex hs hrun, ?_⟩
  have hruns : Steps.Runs (Atomic.Step code) (atomic s)
      ((Steps.trail (step code) s as).map fun x => mark x.2.1) (atomic t) :=
    Steps.runs_of_run hex (fun _ _ _ h hst => atomic_step h (step_stepped hst)) hs hrun
  have hmap := congrArg (List.map mark) (Steps.map_label_trail hrun)
  rw [List.map_map] at hmap
  rwa [← hmap]

/-! ### One operation after the other -/

/-- The operation for which the thread gets the mutex. -/
def serves (s : Monitor θ ω δ) : Act θ ω → Option (θ × ω)
  | .acquire n =>
    match s.stage n with
    | .waiting o _ => some (n, o)
    | _ => none
  | _ => none

/-- The operations of a run, in the order in which they got the mutex. -/
def served (code : ω → List (Instr δ)) (s : Monitor θ ω δ) (as : List (Act θ ω)) : List (θ × ω) :=
  (Steps.trail (step code) s as).filterMap fun x => serves x.1 x.2.1

def Act.called (n : θ) : Act θ ω → Option ω
  | .call m o => if m = n then some o else none
  | _ => none

/-- The calls of a thread. -/
def calls (n : θ) (as : List (Act θ ω)) : List ω := as.filterMap (Act.called n)

/-- The operations of a thread. -/
def ofThread (n : θ) (l : List (θ × ω)) : List ω := (l.filter fun x => x.1 = n).map Prod.snd

/-- The operation that a thread has called and that has not got the mutex. -/
def Stage.called : Stage ω δ → List ω
  | .waiting o _ => [o]
  | _ => []

end

section

variable {code : ω → List (Instr δ)} {s t : Monitor θ ω δ} {a : Act θ ω} {n : θ}

/-- No operation waits. -/
def Waitless (code : ω → List (Instr δ)) : Prop := ∀ o, ∀ i ∈ code o, ∃ f, i = .access f

/-- The operation alone. -/
def run (code : ω → List (Instr δ)) (o : ω) (d : δ) : δ := (burst (code o) d).2

/-- A thread that waits for the mutex has not started. -/
structure Fresh (code : ω → List (Instr δ)) (s : Monitor θ ω δ) : Prop where
  exclusive : Exclusive s
  waiting : ∀ n o is, s.stage n = .waiting o is → is = code o
  asleep : ∀ n o is, s.stage n ≠ .asleep o is
  inside : ∀ n o is, s.stage n = .inside o is → ∀ i ∈ is, ∃ f, i = .access f

theorem fresh_stepped (hc : Waitless code) (h : Fresh code s) (hst : Stepped code s a t) :
    Fresh code t := by
  have hset : ∀ {n : θ} {x : Stage ω δ}, t.stage = update s.stage n x →
      (∀ o is, x = .waiting o is → is = code o) → (∀ o is, x ≠ .asleep o is) →
      (∀ o is, x = .inside o is → ∀ i ∈ is, ∃ f, i = .access f) → Fresh code t := by
    intro n x hs hw ha hi
    refine ⟨exclusive_stepped h.exclusive hst, ?_, ?_, ?_⟩
    all_goals
      intro m
      rw [hs]
      by_cases hm : m = n
      · subst hm
        rw [Function.update_self]
        first | exact hw | exact ha | exact hi
      · rw [Function.update_of_ne hm]
        first | exact h.waiting m | exact h.asleep m | exact h.inside m
  cases hst with
  | call hs =>
    refine hset rfl ?_ nofun nofun
    rintro o is ⟨⟩
    rfl
  | @acquire n o is hs ho =>
    refine hset rfl nofun nofun ?_
    rintro o is ⟨⟩
    obtain rfl := h.waiting n o is hs
    exact hc o
  | @access n o f is hs =>
    refine hset rfl nofun nofun ?_
    rintro o is ⟨⟩ i hi
    exact h.inside n o _ hs i (List.mem_cons_of_mem _ hi)
  | @sleep n o p is hs hp =>
    obtain ⟨f, hf⟩ := h.inside n o _ hs _ List.mem_cons_self
    cases hf
  | @pass n o p is hs hp =>
    obtain ⟨f, hf⟩ := h.inside n o _ hs _ List.mem_cons_self
    cases hf
  | @wake n o is hs => exact absurd hs (h.asleep n o is)
  | @release n o hs => exact hset rfl nofun nofun nofun

/-- The data as the operations that have got the mutex leave them. -/
theorem data_stepped (h : Fresh code s) (hst : Stepped code s a t) :
    (atomic t).data = (serves s a).elim (atomic s).data fun x => run code x.2 (atomic s).data := by
  have hat := atomic_step h.exclusive hst
  have ht := exclusive_stepped h.exclusive hst
  have hquiet : Atomic.Step code (atomic s) .quiet (atomic t) → (atomic t).data = (atomic s).data := by
    intro hq
    generalize atomic t = v at hq
    cases hq
    rfl
  cases hst with
  | @call n o hs =>
    have hnot : ¬ (s.stage n).Inside := by
      rw [hs]
      exact id
    exact data_setStage h.exclusive hnot
  | @acquire n o is hs ho =>
    obtain rfl := h.waiting n o is hs
    have hset : ({ s.setStage n (.inside o (code o)) with owner := some n } : Monitor θ ω δ).stage n =
        .inside o (code o) := setStage_self s n _
    rw [(atomic_inside ht hset).1, (atomic_outside h.exclusive ho).1, serves, hs]
    rfl
  | access hs => exact hquiet hat
  | sleep hs hp => exact hquiet hat
  | pass hs hp => exact hquiet hat
  | wake hs => exact hquiet hat
  | @release n o hs =>
    rw [(atomic_outside ht rfl).1, (atomic_inside h.exclusive hs).1]
    rfl

/-- A call is served once. -/
theorem called_stepped (h : Fresh code s) (hst : Stepped code s a t) (n : θ) :
    (s.stage n).called ++ (a.called n).toList =
      ofThread n (serves s a).toList ++ (t.stage n).called := by
  have hother : ∀ {m : θ} {x : Stage ω δ}, n ≠ m → t.stage = update s.stage m x → a.called n = none →
      (∀ y, serves s a = some y → y.1 = m) → (s.stage n).called ++ (a.called n).toList =
        ofThread n (serves s a).toList ++ (t.stage n).called := by
    intro m x hm hs hcall hserve
    have hnil : ofThread n (serves s a).toList = [] := by
      cases hy : serves s a with
      | none => rfl
      | some y => simp [ofThread, hserve y hy, hm.symm]
    rw [hcall, hnil, hs, Function.update_of_ne hm, List.nil_append]
    exact List.append_nil _
  cases hst with
  | @call m o hs =>
    by_cases hm : n = m
    · subst hm
      rw [hs, setStage_self]
      simp [Stage.called, Act.called, serves, ofThread]
    · exact hother hm rfl (if_neg fun h => hm h.symm) nofun
  | @acquire m o is hs ho =>
    by_cases hm : n = m
    · subst hm
      show (s.stage n).called ++ _ = _ ++ ((s.setStage n _).stage n).called
      rw [hs, setStage_self, serves, hs]
      simp [Stage.called, Act.called, ofThread]
    · refine hother hm rfl rfl ?_
      intro y hy
      rw [serves, hs] at hy
      rw [← Option.some.inj hy]
  | @access m o f is hs =>
    by_cases hm : n = m
    · subst hm
      show (s.stage n).called ++ _ = _ ++ ((s.setStage n _).stage n).called
      rw [hs, setStage_self]
      rfl
    · exact hother hm rfl rfl nofun
  | @sleep m o p is hs hp =>
    by_cases hm : n = m
    · subst hm
      show (s.stage n).called ++ _ = _ ++ ((s.setStage n _).stage n).called
      rw [hs, setStage_self]
      rfl
    · exact hother hm rfl rfl nofun
  | @pass m o p is hs hp =>
    by_cases hm : n = m
    · subst hm
      rw [hs, setStage_self]
      rfl
    · exact hother hm rfl rfl nofun
  | @wake m o is hs => exact absurd hs (h.asleep m o is)
  | @release m o hs =>
    by_cases hm : n = m
    · subst hm
      show (s.stage n).called ++ _ = _ ++ ((s.setStage n _).stage n).called
      rw [hs, setStage_self]
      rfl
    · exact hother hm rfl rfl nofun

theorem serial_from (hc : Waitless code) : ∀ {as : List (Act θ ω)} {s t : Monitor θ ω δ},
    Fresh code s → Steps.run (step code) s as = some t → Fresh code t ∧
      (atomic t).data = (served code s as).foldl (fun d x => run code x.2 d) (atomic s).data ∧
      ∀ n, (s.stage n).called ++ calls n as =
        ofThread n (served code s as) ++ (t.stage n).called := by
  intro as
  induction as with
  | nil =>
    intro s t h hrun
    obtain rfl := Option.some.inj hrun
    exact ⟨h, rfl, fun n => List.append_nil _⟩
  | cons a as ih =>
    intro s t h hrun
    obtain ⟨u, hu, hrun⟩ := Steps.run_cons_eq_some.mp hrun
    obtain ⟨ht, hdata, hcalls⟩ := ih (fresh_stepped hc h (step_stepped hu)) hrun
    have hserved : served code s (a :: as) = (serves s a).toList ++ served code u as := by
      rw [served, Steps.trail_cons hu, List.filterMap_cons]
      cases serves s a <;> rfl
    refine ⟨ht, ?_, ?_⟩
    · rw [hdata, data_stepped h (step_stepped hu), hserved]
      cases serves s a <;> rfl
    · intro n
      have hcons : calls n (a :: as) = (a.called n).toList ++ calls n as := by
        rw [calls, List.filterMap_cons]
        cases a.called n <;> rfl
      have happ : ofThread n (served code s (a :: as)) =
          ofThread n (serves s a).toList ++ ofThread n (served code u as) := by
        rw [hserved, ofThread, List.filter_append, List.map_append]
        rfl
      rw [hcons, happ, ← List.append_assoc, called_stepped h (step_stepped hu) n, List.append_assoc,
        hcalls n, List.append_assoc]

/-- **Critical sections are served one after the other.**  The data are those after the operations
served, each call is served once, and the calls of a thread in their order. -/
theorem serial (hc : Waitless code) {d : δ} {as : List (Act θ ω)}
    (hrun : Steps.run (step code) (init d) as = some t) : Exclusive t ∧
      (t.owner = none → t.data = (served code (init d) as).foldl (fun d x => run code x.2 d) d) ∧
      ∀ n, calls n as = ofThread n (served code (init d) as) ++ (t.stage n).called := by
  obtain ⟨h, hdata, hcalls⟩ :=
    serial_from hc ⟨exclusive_init d, nofun, nofun, nofun⟩ hrun
  refine ⟨h.exclusive, ?_, hcalls⟩
  intro ho
  rw [← (atomic_outside h.exclusive ho).1, hdata]
  rfl

end

end Monitor
