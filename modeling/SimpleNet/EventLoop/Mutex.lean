import SimpleNet.Lib.Batch
import SimpleNet.Lib.Monitor

/-!
# The mutex and its holder

`MutexLock` with its `holder_`, `MutexLockGuard` around critical sections and `Condition::wait`
inside them.  The pthread mutex and `holder_` are written at different times: after
`pthread_mutex_lock` and before `pthread_mutex_unlock`, and around `pthread_cond_wait`.  Each of
these is a step, and so is each instruction of a critical section.

`lock_refines`: `isLockedByThisThread` is true on the thread that is between `lock()` and
`unlock()` and not in `wait()`, and on no other; and every interleaving is one in which a critical
section runs at once, up to its next `wait()`.  `queue_serial`: the loop's queue of functors, whose
vectors are pushed to and swapped by any number of accesses, is the queue that `EventLoop.step`
pushes to and swaps at once.
-/

namespace SimpleNet

open Function (update)
open Monitor (Instr)

/-- What `CurrentThread::tid()` returns. -/
abbrev Tid := {n : Nat // 0 < n}

/-- Where a thread is in the scope of a `MutexLockGuard`. -/
inductive Guarding (ω δ : Type)
  | out
  /-- in `pthread_mutex_lock`, or in `pthread_cond_wait` after it was woken -/
  | blocked (o : ω) (is : List (Instr δ))
  /-- it has the mutex, before `assignHolder()` -/
  | locked (o : ω) (is : List (Instr δ))
  | inside (o : ω) (is : List (Instr δ))
  /-- in `wait()`, after `unassignHolder()` -/
  | parking (o : ω) (is : List (Instr δ))
  /-- in `pthread_cond_wait`, without the mutex -/
  | asleep (o : ω) (is : List (Instr δ))
  /-- in `unlock()`, after `unassignHolder()` -/
  | unlocking (o : ω)

/-- It has the pthread mutex. -/
def Guarding.Owns {ω δ : Type} : Guarding ω δ → Prop
  | .locked _ _ | .inside _ _ | .parking _ _ | .unlocking _ => True
  | _ => False

/-- It is in the critical section proper. -/
def Guarding.Inside {ω δ : Type} : Guarding ω δ → Prop
  | .inside _ _ => True
  | _ => False

/-- What is left of the stages without `holder_`. -/
def Guarding.monitor {ω δ : Type} : Guarding ω δ → Monitor.Stage ω δ
  | .out => .out
  | .blocked o is => .waiting o is
  | .locked o is | .inside o is | .parking o is => .inside o is
  | .asleep o is => .asleep o is
  | .unlocking o => .inside o []

theorem Guarding.owns_of_inside {ω δ : Type} {x : Guarding ω δ} (h : x.Inside) : x.Owns := by
  cases x with
  | inside o is => trivial
  | _ => exact h.elim

/-- A mutex with the data that it guards. -/
structure MutexLock (ω δ : Type) where
  /-- the owner of `mutex_` -/
  mutex_ : Option Tid
  holder_ : Nat
  stage : Tid → Guarding ω δ
  data : δ

namespace MutexLock

variable {ω δ : Type}

/-- `MutexLock::MutexLock`. -/
def init (d : δ) : MutexLock ω δ := ⟨none, 0, fun _ => .out, d⟩

def isLockedByThisThread (s : MutexLock ω δ) (n : Tid) : Bool := s.holder_ = n.val

def unassignHolder (s : MutexLock ω δ) : MutexLock ω δ := { s with holder_ := 0 }

def assignHolder (s : MutexLock ω δ) (n : Tid) : MutexLock ω δ := { s with holder_ := n.val }

/-- Thread `n` goes on to `x`. -/
def setStage (s : MutexLock ω δ) (n : Tid) (x : Guarding ω δ) : MutexLock ω δ :=
  { s with stage := update s.stage n x }

inductive Act (ω : Type)
  /-- a `MutexLockGuard` is constructed for `o` -/
  | lock (n : Tid) (o : ω)
  /-- `pthread_mutex_lock` returns, or `pthread_cond_wait` -/
  | pthreadMutexLock (n : Tid)
  | assignHolder (n : Tid)
  /-- the next instruction; `wait()` up to the constructor of its `UnassignGuard` -/
  | go (n : Tid)
  /-- `pthread_cond_wait` gives the mutex away -/
  | pthreadCondWait (n : Tid)
  /-- with or without a signal -/
  | wake (n : Tid)
  | unassignHolder (n : Tid)
  | pthreadMutexUnlock (n : Tid)

def step (code : ω → List (Instr δ)) (s : MutexLock ω δ) : Act ω → Option (MutexLock ω δ)
  | .lock n o =>
    match s.stage n with
    | .out => some (s.setStage n (.blocked o (code o)))
    | _ => none
  | .pthreadMutexLock n =>
    match s.stage n, s.mutex_ with
    | .blocked o is, none => some { s.setStage n (.locked o is) with mutex_ := some n }
    | _, _ => none
  | .assignHolder n =>
    match s.stage n with
    | .locked o is => some ((s.setStage n (.inside o is)).assignHolder n)
    | _ => none
  | .go n =>
    match s.stage n with
    | .inside o (.access f :: is) => some { s.setStage n (.inside o is) with data := f s.data }
    | .inside o (.await p :: is) =>
      if p s.data then some (s.setStage n (.parking o (.await p :: is))).unassignHolder
      else some (s.setStage n (.inside o is))
    | _ => none
  | .pthreadCondWait n =>
    match s.stage n with
    | .parking o is => some { s.setStage n (.asleep o is) with mutex_ := none }
    | _ => none
  | .wake n =>
    match s.stage n with
    | .asleep o is => some (s.setStage n (.blocked o is))
    | _ => none
  | .unassignHolder n =>
    match s.stage n with
    | .inside o [] => some (s.setStage n (.unlocking o)).unassignHolder
    | _ => none
  | .pthreadMutexUnlock n =>
    match s.stage n with
    | .unlocking _ => some { s.setStage n .out with mutex_ := none }
    | _ => none

/-- The branches of `step`. -/
inductive Stepped (code : ω → List (Instr δ)) (s : MutexLock ω δ) :
    Act ω → MutexLock ω δ → Prop
  | lock {n : Tid} {o : ω} (hs : s.stage n = .out) :
    Stepped code s (.lock n o) (s.setStage n (.blocked o (code o)))
  | pthreadMutexLock {n : Tid} {o : ω} {is : List (Instr δ)} (hs : s.stage n = .blocked o is)
    (hm : s.mutex_ = none) :
    Stepped code s (.pthreadMutexLock n) { s.setStage n (.locked o is) with mutex_ := some n }
  | assignHolder {n : Tid} {o : ω} {is : List (Instr δ)} (hs : s.stage n = .locked o is) :
    Stepped code s (.assignHolder n) ((s.setStage n (.inside o is)).assignHolder n)
  | access {n : Tid} {o : ω} {f : δ → δ} {is : List (Instr δ)}
    (hs : s.stage n = .inside o (.access f :: is)) :
    Stepped code s (.go n) { s.setStage n (.inside o is) with data := f s.data }
  | park {n : Tid} {o : ω} {p : δ → Bool} {is : List (Instr δ)}
    (hs : s.stage n = .inside o (.await p :: is)) (hp : p s.data = true) :
    Stepped code s (.go n) (s.setStage n (.parking o (.await p :: is))).unassignHolder
  | pass {n : Tid} {o : ω} {p : δ → Bool} {is : List (Instr δ)}
    (hs : s.stage n = .inside o (.await p :: is)) (hp : p s.data = false) :
    Stepped code s (.go n) (s.setStage n (.inside o is))
  | pthreadCondWait {n : Tid} {o : ω} {is : List (Instr δ)} (hs : s.stage n = .parking o is) :
    Stepped code s (.pthreadCondWait n) { s.setStage n (.asleep o is) with mutex_ := none }
  | wake {n : Tid} {o : ω} {is : List (Instr δ)} (hs : s.stage n = .asleep o is) :
    Stepped code s (.wake n) (s.setStage n (.blocked o is))
  | unassignHolder {n : Tid} {o : ω} (hs : s.stage n = .inside o []) :
    Stepped code s (.unassignHolder n) (s.setStage n (.unlocking o)).unassignHolder
  | pthreadMutexUnlock {n : Tid} {o : ω} (hs : s.stage n = .unlocking o) :
    Stepped code s (.pthreadMutexUnlock n) { s.setStage n .out with mutex_ := none }

section

variable {code : ω → List (Instr δ)} {s t : MutexLock ω δ} {a : Act ω} {m n : Tid}

theorem step_stepped (h : step code s a = some t) : Stepped code s a t := by
  cases a with
  | lock n o =>
    simp only [step] at h
    split at h
    · next hs => exact Option.some.inj h ▸ .lock hs
    · cases h
  | pthreadMutexLock n =>
    simp only [step] at h
    split at h
    · next hs hm => exact Option.some.inj h ▸ .pthreadMutexLock hs hm
    · cases h
  | assignHolder n =>
    simp only [step] at h
    split at h
    · next hs => exact Option.some.inj h ▸ .assignHolder hs
    · cases h
  | go n =>
    simp only [step] at h
    split at h
    · next hs => exact Option.some.inj h ▸ .access hs
    · next hs =>
      split at h
      · next hp => exact Option.some.inj h ▸ .park hs hp
      · next hp => exact Option.some.inj h ▸ .pass hs ((Bool.not_eq_true _).mp hp)
    · cases h
  | pthreadCondWait n =>
    simp only [step] at h
    split at h
    · next hs => exact Option.some.inj h ▸ .pthreadCondWait hs
    · cases h
  | wake n =>
    simp only [step] at h
    split at h
    · next hs => exact Option.some.inj h ▸ .wake hs
    · cases h
  | unassignHolder n =>
    simp only [step] at h
    split at h
    · next hs => exact Option.some.inj h ▸ .unassignHolder hs
    · cases h
  | pthreadMutexUnlock n =>
    simp only [step] at h
    split at h
    · next hs => exact Option.some.inj h ▸ .pthreadMutexUnlock hs
    · cases h

/-! ### The holder -/

/-- One thread has the mutex, and `holder_` is it while it is inside. -/
structure Held (s : MutexLock ω δ) : Prop where
  owns : ∀ n, (s.stage n).Owns ↔ s.mutex_ = some n
  inside : ∀ n : Tid, (s.stage n).Inside ↔ s.holder_ = n.val
  /-- a thread goes to `pthread_cond_wait` only where it has to wait -/
  parking : ∀ n o is, s.stage n = .parking o is → ∃ p js, is = .await p :: js ∧ p s.data = true

theorem Held.of_inside (h : Held s) (hs : (s.stage n).Inside) :
    s.mutex_ = some n ∧ s.holder_ = n.val :=
  ⟨(h.owns n).mp (Guarding.owns_of_inside hs), (h.inside n).mp hs⟩

/-- Where a thread owns the mutex and is not inside, nobody is the holder. -/
theorem Held.holder_eq (h : Held s) (hs : (s.stage n).Owns) (hn : ¬ (s.stage n).Inside) (m : Tid) :
    s.holder_ ≠ m.val := by
  intro hm
  have hin := (h.inside m).mpr hm
  have heq : m = n := Option.some.inj (((h.of_inside hin).1).symm.trans ((h.owns n).mp hs))
  exact hn (heq ▸ hin)

/-- A step of a thread that has the mutex before it, after it, or not at all. -/
theorem Held.setStage (h : Held s) {x : Guarding ω δ} {d : δ} {p : Option Tid} {k : Nat}
    (ho : x.Owns ↔ p = some n) (hi : x.Inside ↔ k = n.val)
    (hp : ∀ m ≠ n, s.mutex_ = some m ↔ p = some m)
    (hk : ∀ m : Tid, m ≠ n → (s.holder_ = m.val ↔ k = m.val))
    (hw : ∀ o is, x = .parking o is → ∃ q js, is = .await q :: js ∧ q d = true)
    (hd : d = s.data ∨ ∀ m ≠ n, ¬ (s.stage m).Owns) :
    Held { s.setStage n x with data := d, mutex_ := p, holder_ := k } := by
  have hself : update s.stage n x n = x := Function.update_self _ _ _
  have hother : ∀ {m}, m ≠ n → update s.stage n x m = s.stage m := fun hm => Function.update_of_ne hm _ _
  refine ⟨?_, ?_, ?_⟩
  · intro m
    show (update s.stage n x m).Owns ↔ _
    by_cases hm : m = n
    · rw [hm, hself]
      exact ho
    · rw [hother hm, h.owns m]
      exact hp m hm
  · intro m
    show (update s.stage n x m).Inside ↔ _
    by_cases hm : m = n
    · rw [hm, hself]
      exact hi
    · rw [hother hm, h.inside m]
      exact hk m hm
  · intro m o is (hs : update s.stage n x m = _)
    by_cases hm : m = n
    · rw [hm, hself] at hs
      exact hw o is hs
    · rw [hother hm] at hs
      rcases hd with rfl | hd
      · exact h.parking m o is hs
      · exact absurd (by rw [hs]; trivial) (hd m hm)

theorem held_stepped (h : Held s) (hst : Stepped code s a t) : Held t := by
  have hmutex : ∀ {n}, (s.stage n).Owns → ∀ m ≠ n, s.mutex_ = some m ↔ none = some m := by
    intro n hs m hm
    rw [(h.owns n).mp hs]
    exact ⟨fun he => absurd (Option.some.inj he).symm hm, nofun⟩
  have halone : ∀ {n}, (s.stage n).Owns → ∀ m ≠ n, ¬ (s.stage m).Owns := by
    intro n hs m hm hsm
    exact absurd (((h.owns m).mp hsm).symm.trans ((h.owns n).mp hs)) fun he =>
      hm (Option.some.inj he)
  -- where `n` is the holder or nobody is, the others are not
  have hzero : ∀ {n : Tid}, (s.stage n).Inside → ∀ m : Tid, m ≠ n → (s.holder_ = m.val ↔ 0 = m.val) := by
    intro n hs m hm
    rw [(h.of_inside hs).2]
    exact ⟨fun he => absurd (Subtype.ext he).symm hm, fun he => absurd he.symm (Nat.ne_of_gt m.2)⟩
  cases hst with
  | @lock n o hs =>
    have hout : ¬ (s.stage n).Owns := by rw [hs]; exact id
    refine h.setStage ⟨nofun, fun hp => hout ((h.owns n).mpr hp)⟩
      ⟨nofun, fun hk => hout (Guarding.owns_of_inside ((h.inside n).mpr hk))⟩
      (fun _ _ => Iff.rfl) (fun _ _ => Iff.rfl) nofun (Or.inl rfl)
  | @pthreadMutexLock n o is hs hm =>
    have hout : ¬ (s.stage n).Owns := by rw [hs]; exact id
    refine h.setStage ⟨fun _ => rfl, fun _ => trivial⟩
      ⟨nofun, fun hk => hout (Guarding.owns_of_inside ((h.inside n).mpr hk))⟩
      (fun m hne => ?_) (fun _ _ => Iff.rfl) nofun (Or.inl rfl)
    rw [hm]
    exact ⟨nofun, fun he => absurd (Option.some.inj he).symm hne⟩
  | @assignHolder n o is hs =>
    have hown : (s.stage n).Owns := by rw [hs]; trivial
    have hin : ¬ (s.stage n).Inside := by rw [hs]; exact id
    refine h.setStage ⟨fun _ => (h.owns n).mp hown, fun _ => trivial⟩ ⟨fun _ => rfl, fun _ => trivial⟩
      (fun _ _ => Iff.rfl) (fun m hne => ?_) nofun (Or.inl rfl)
    exact ⟨fun he => absurd he (h.holder_eq hown hin m), fun he => absurd (Subtype.ext he).symm hne⟩
  | @access n o f is hs =>
    have hin : (s.stage n).Inside := by rw [hs]; trivial
    have hown := Guarding.owns_of_inside hin
    exact h.setStage ⟨fun _ => (h.of_inside hin).1, fun _ => trivial⟩
      ⟨fun _ => (h.of_inside hin).2, fun _ => trivial⟩ (fun _ _ => Iff.rfl) (fun _ _ => Iff.rfl) nofun
      (Or.inr (halone hown))
  | @park n o p is hs hp =>
    have hin : (s.stage n).Inside := by rw [hs]; trivial
    refine h.setStage ⟨fun _ => (h.of_inside hin).1, fun _ => trivial⟩
      ⟨nofun, fun he => absurd he.symm (Nat.ne_of_gt n.2)⟩ (fun _ _ => Iff.rfl) (hzero hin) ?_ (Or.inl rfl)
    rintro _ _ ⟨⟩
    exact ⟨p, is, rfl, hp⟩
  | @pass n o p is hs hp =>
    have hin : (s.stage n).Inside := by rw [hs]; trivial
    exact h.setStage ⟨fun _ => (h.of_inside hin).1, fun _ => trivial⟩
      ⟨fun _ => (h.of_inside hin).2, fun _ => trivial⟩ (fun _ _ => Iff.rfl) (fun _ _ => Iff.rfl) nofun
      (Or.inl rfl)
  | @pthreadCondWait n o is hs =>
    have hown : (s.stage n).Owns := by rw [hs]; trivial
    have hin : ¬ (s.stage n).Inside := by rw [hs]; exact id
    exact h.setStage ⟨nofun, nofun⟩ ⟨nofun, fun he => absurd he (h.holder_eq hown hin n)⟩
      (hmutex hown) (fun _ _ => Iff.rfl) nofun (Or.inl rfl)
  | @wake n o is hs =>
    have hout : ¬ (s.stage n).Owns := by rw [hs]; exact id
    refine h.setStage ⟨nofun, fun hp => hout ((h.owns n).mpr hp)⟩
      ⟨nofun, fun hk => hout (Guarding.owns_of_inside ((h.inside n).mpr hk))⟩
      (fun _ _ => Iff.rfl) (fun _ _ => Iff.rfl) nofun (Or.inl rfl)
  | @unassignHolder n o hs =>
    have hin : (s.stage n).Inside := by rw [hs]; trivial
    exact h.setStage ⟨fun _ => (h.of_inside hin).1, fun _ => trivial⟩
      ⟨nofun, fun he => absurd he.symm (Nat.ne_of_gt n.2)⟩ (fun _ _ => Iff.rfl) (hzero hin) nofun (Or.inl rfl)
  | @pthreadMutexUnlock n o hs =>
    have hown : (s.stage n).Owns := by rw [hs]; trivial
    have hin : ¬ (s.stage n).Inside := by rw [hs]; exact id
    exact h.setStage ⟨nofun, nofun⟩ ⟨nofun, fun he => absurd he (h.holder_eq hown hin n)⟩
      (hmutex hown) (fun _ _ => Iff.rfl) nofun (Or.inl rfl)

theorem held_init (d : δ) : Held (init d : MutexLock ω δ) :=
  ⟨fun _ => ⟨nofun, nofun⟩, fun n => ⟨nofun, fun he => absurd he.symm (Nat.ne_of_gt n.2)⟩, nofun⟩

/-! ### Without the holder -/

end

def monitor (s : MutexLock ω δ) : Monitor Tid ω δ :=
  ⟨s.data, s.mutex_, fun n => (s.stage n).monitor⟩

/-- The steps of `Monitor` for one of `MutexLock`: `pthread_cond_wait` is the instruction that
waits, `wait()` before it is nothing. -/
def moves (s : MutexLock ω δ) : Act ω → List (Monitor.Act Tid ω)
  | .lock n o => [.call n o]
  | .pthreadMutexLock n => [.acquire n]
  | .assignHolder _ | .unassignHolder _ => []
  | .go n =>
    match s.stage n with
    | .inside _ (.await p :: _) => if p s.data then [] else [.go n]
    | _ => [.go n]
  | .pthreadCondWait n => [.go n]
  | .wake n => [.wake n]
  | .pthreadMutexUnlock n => [.release n]

section

variable {code : ω → List (Instr δ)} {s t : MutexLock ω δ} {a : Act ω} {n : Tid}

theorem monitor_setStage (s : MutexLock ω δ) (n : Tid) (x : Guarding ω δ) :
    (s.setStage n x).monitor = s.monitor.setStage n x.monitor := by
  refine congrArg (Monitor.mk s.data s.mutex_) (funext fun m => ?_)
  show (update s.stage n x m).monitor = update (fun m => (s.stage m).monitor) n x.monitor m
  by_cases hm : m = n
  · rw [hm, Function.update_self, Function.update_self]
  · rw [Function.update_of_ne hm, Function.update_of_ne hm]

/-- A step that only `holder_` shows. -/
theorem monitor_setStage_of_eq {x : Guarding ω δ} (h : x.monitor = (s.stage n).monitor) :
    (s.setStage n x).monitor = s.monitor := by
  rw [monitor_setStage, h]
  exact congrArg (Monitor.mk s.data s.mutex_) (Function.update_eq_self n _)

theorem stage_monitor {x : Guarding ω δ} (h : s.stage n = x) : s.monitor.stage n = x.monitor :=
  congrArg Guarding.monitor h

theorem moves_stepped (h : Held s) (hst : Stepped code s a t) :
    Steps.run (Monitor.step code) s.monitor (moves s a) = some t.monitor := by
  have hone : ∀ {b : Monitor.Act Tid ω} {u}, Monitor.step code s.monitor b = some u →
      Steps.run (Monitor.step code) s.monitor [b] = some u := by
    intro b u hb
    rw [Steps.run_cons_eq_some]
    exact ⟨u, hb, rfl⟩
  cases hst with
  | @lock n o hs =>
    refine hone ?_
    rw [Monitor.step, stage_monitor hs, monitor_setStage]
    rfl
  | @pthreadMutexLock n o is hs hm =>
    refine hone ?_
    have hm' : s.monitor.owner = none := hm
    rw [Monitor.step, stage_monitor hs, hm', Guarding.monitor]
    refine congrArg some ?_
    show _ = { (s.setStage n (.locked o is)).monitor with owner := some n }
    rw [monitor_setStage]
    rfl
  | @assignHolder n o is hs =>
    refine congrArg some (monitor_setStage_of_eq (x := .inside o is) ?_).symm
    rw [hs]
    rfl
  | @access n o f is hs =>
    have hmove : moves s (.go n) = [.go n] := by rw [moves, hs]
    rw [hmove]
    refine hone ?_
    rw [Monitor.step, stage_monitor hs, Guarding.monitor]
    refine congrArg some ?_
    show _ = { (s.setStage n (.inside o is)).monitor with data := f s.data }
    rw [monitor_setStage]
    rfl
  | @park n o p is hs hp =>
    have hmove : moves s (.go n) = [] := by rw [moves, hs]; exact if_pos hp
    rw [hmove]
    refine congrArg some (monitor_setStage_of_eq (x := .parking o (.await p :: is)) ?_).symm
    rw [hs]
    rfl
  | @pass n o p is hs hp =>
    have hp' : ¬ p s.data = true := by rw [hp]; exact Bool.false_ne_true
    have hmove : moves s (.go n) = [.go n] := by rw [moves, hs]; exact if_neg hp'
    rw [hmove]
    refine hone ?_
    rw [Monitor.step, stage_monitor hs, Guarding.monitor, monitor_setStage]
    exact if_neg hp'
  | @pthreadCondWait n o is hs =>
    obtain ⟨p, js, rfl, hp⟩ := h.parking n o is hs
    refine hone ?_
    rw [Monitor.step, stage_monitor hs, Guarding.monitor]
    refine (if_pos hp).trans (congrArg some ?_)
    show _ = { (s.setStage n (.asleep o (.await p :: js))).monitor with owner := none }
    rw [monitor_setStage]
    rfl
  | @wake n o is hs =>
    refine hone ?_
    rw [Monitor.step, stage_monitor hs, monitor_setStage]
    rfl
  | @unassignHolder n o hs =>
    refine congrArg some (monitor_setStage_of_eq (x := .unlocking o) ?_).symm
    rw [hs]
    rfl
  | @pthreadMutexUnlock n o hs =>
    refine hone ?_
    rw [Monitor.step, stage_monitor hs, Guarding.monitor]
    refine congrArg some ?_
    show _ = { (s.setStage n .out).monitor with owner := none }
    rw [monitor_setStage]
    rfl

theorem held_run {as : List (Act ω)} (hs : Held s) (hrun : Steps.run (step code) s as = some t) :
    Held t :=
  Steps.run_invariant (fun _ _ _ h hst => held_stepped h (step_stepped hst)) hs hrun

/-- What the run is without `holder_`. -/
def moved (code : ω → List (Instr δ)) (s : MutexLock ω δ) (as : List (Act ω)) :
    List (Monitor.Act Tid ω) :=
  (Steps.trail (step code) s as).flatMap fun x => moves x.1 x.2.1

theorem moved_run {as : List (Act ω)} (hs : Held s) (hrun : Steps.run (step code) s as = some t) :
    Steps.run (Monitor.step code) s.monitor (moved code s as) = some t.monitor :=
  Steps.run_of_run (fun _ _ _ h hst => held_stepped h (step_stepped hst))
    (fun _ _ _ h hst => moves_stepped h (step_stepped hst)) hs hrun

/-- **The mutex and its holder.**  `isLockedByThisThread` is exact, `holder_` is 0 where nobody has
the mutex, and critical sections run at once up to their next `wait()`. -/
theorem lock_refines {d : δ} {as : List (Act ω)}
    (hrun : Steps.run (step code) (init d) as = some t) :
    (∀ n, t.isLockedByThisThread n = true ↔ (t.stage n).Inside) ∧
      (t.mutex_ = none → t.holder_ = 0) ∧
      Steps.Runs (Monitor.Atomic.Step code) (Monitor.atomic (Monitor.init d))
        ((moved code (init d) as).map Monitor.mark) (Monitor.atomic t.monitor) := by
  have ht := held_run (held_init d) hrun
  refine ⟨?_, ?_, (Monitor.refines_atomic (Monitor.exclusive_init d) (moved_run (held_init d) hrun)).2⟩
  · intro n
    exact decide_eq_true_iff.trans (ht.inside n).symm
  · intro hm
    by_contra hne
    have hin := (ht.inside ⟨t.holder_, Nat.pos_of_ne_zero hne⟩).mpr rfl
    rw [(ht.of_inside hin).1] at hm
    cases hm

/-- The critical sections of an `EventLoopThread`. -/
inductive LoopOp
  | startLoop
  | threadFunc

/-- `loop_` alone is what they share; `true` if it is not `NULL`. -/
def loopCode : LoopOp → List (Instr Bool)
  | .startLoop => [.await fun loop_ => !loop_]
  | .threadFunc => [.access fun _ => true]

/-- `startLoop` waits, is woken without a signal, and `threadFunc` gets the mutex first. -/
def startLoopWaits : List (Act LoopOp) :=
  [.lock ⟨1, Nat.one_pos⟩ .startLoop, .pthreadMutexLock ⟨1, Nat.one_pos⟩,
    .assignHolder ⟨1, Nat.one_pos⟩, .go ⟨1, Nat.one_pos⟩, .pthreadCondWait ⟨1, Nat.one_pos⟩,
    .lock ⟨2, Nat.two_pos⟩ .threadFunc, .wake ⟨1, Nat.one_pos⟩,
    .pthreadMutexLock ⟨2, Nat.two_pos⟩, .assignHolder ⟨2, Nat.two_pos⟩, .go ⟨2, Nat.two_pos⟩]

theorem lock_refines_startLoop : ∃ t,
    Steps.run (step loopCode) (init false) startLoopWaits = some t ∧
    ∀ n, t.isLockedByThisThread n = true ↔ (t.stage n).Inside := by
  have hrun : Steps.run (step loopCode) (init false) startLoopWaits = some _ := rfl
  exact ⟨_, hrun, (lock_refines hrun).1⟩

/-- The critical sections of a thread, as it comes to them. -/
def Act.called (n : Tid) : Act ω → Option ω
  | .lock m o => if m = n then some o else none
  | _ => none

theorem called_moves (s : MutexLock ω δ) (a : Act ω) (n : Tid) :
    Monitor.calls n (moves s a) = (a.called n).toList := by
  cases a with
  | lock m o =>
    show List.filterMap (Monitor.Act.called n) [.call m o] = _
    have hsame : Monitor.Act.called n (.call m o) = (Act.lock m o).called n := rfl
    rw [List.filterMap_cons, hsame]
    cases (Act.lock m o).called n <;> rfl
  | go m =>
    rw [moves]
    split
    · split <;> rfl
    · rfl
  | _ => rfl

theorem calls_moved : ∀ {as : List (Act ω)} {s t : MutexLock ω δ},
    Steps.run (step code) s as = some t → ∀ n,
      Monitor.calls n (moved code s as) = as.filterMap (Act.called n) := by
  intro as
  induction as with
  | nil => exact fun _ _ => rfl
  | cons a as ih =>
    intro s t hrun n
    obtain ⟨u, hu, hrun⟩ := Steps.run_cons_eq_some.mp hrun
    have hcons : moved code s (a :: as) = moves s a ++ moved code u as := by
      rw [moved, Steps.trail_cons hu, List.flatMap_cons]
      rfl
    rw [hcons, Monitor.calls, List.filterMap_append]
    refine (congrArg₂ (· ++ ·) (called_moves s a n) (ih hrun n)).trans ?_
    rw [List.filterMap_cons]
    cases a.called n <;> rfl

end

end MutexLock

/-! ### The queue of functors -/

/-- The critical sections of the loop's `mutex_`, by the functions that have them. -/
inductive QueueOp (φ : Type)
  | queueInLoop (f : φ)
  /-- `functors.swap(pendingFunctors_)` -/
  | doPendingFunctors
  | queueSize

namespace QueueOp

variable {φ ν : Type}

/-- What they do to `functors` and `pendingFunctors_`. -/
def apply : QueueOp φ → Batched φ → Batched φ
  | .queueInLoop f, q => q.push f
  | .doPendingFunctors, q => q.swap
  | .queueSize, q => q

def pushed : QueueOp φ → Option φ
  | .queueInLoop f => some f
  | _ => none

/-- The vectors that are swapped out. -/
def batches : Batched φ → List (QueueOp φ) → List (List φ)
  | _, [] => []
  | q, .doPendingFunctors :: os => q.pending :: batches q.swap os
  | q, o :: os => batches (o.apply q) os

/-- What was swapped out and what is still pending is what was pushed. -/
theorem batches_pending : ∀ (os : List (QueueOp φ)) (q : Batched φ),
    (batches q os).flatten ++ (os.foldl (fun q o => o.apply q) q).pending =
      q.pending ++ os.filterMap pushed := by
  intro os
  induction os with
  | nil => exact fun q => (List.append_nil _).symm
  | cons o os ih =>
    intro q
    cases o with
    | queueInLoop f =>
      refine (ih (q.push f)).trans ?_
      rw [Batched.push_pending, List.append_assoc]
      rfl
    | doPendingFunctors =>
      show (q.pending :: batches q.swap os).flatten ++ _ = _
      rw [List.flatten_cons, List.append_assoc]
      exact congrArg (q.pending ++ ·) (ih q.swap)
    | queueSize => exact ih q

/-- Code for the critical sections, over some representation of the two vectors. -/
structure Code (φ ν : Type) where
  code : QueueOp φ → List (Instr ν)
  view : ν → Batched φ
  waitless : Monitor.Waitless code
  view_run : ∀ o d, view (Monitor.run code o d) = o.apply (view d)

theorem view_foldl (c : Code φ ν) (l : List (Tid × QueueOp φ)) (d : ν) :
    c.view (l.foldl (fun d x => Monitor.run c.code x.2 d) d) =
      (l.map Prod.snd).foldl (fun q o => o.apply q) (c.view d) := by
  induction l generalizing d with
  | nil => rfl
  | cons x l ih =>
    refine (ih _).trans ?_
    rw [c.view_run]
    rfl

/-- The critical sections that have got the mutex, in this order. -/
def served (c : Code φ ν) (d : ν) (as : List (MutexLock.Act (QueueOp φ))) : List (Tid × QueueOp φ) :=
  Monitor.served c.code (Monitor.init d) (MutexLock.moved c.code (MutexLock.init d) as)

/-- **The queue under its mutex.**  In every interleaving of the accesses the vectors are those
after the critical sections one by one, in the order of the mutex; no functor is lost or
duplicated, and the calls of each thread are served in their order. -/
theorem queue_serial (c : Code φ ν) {d : ν} {as : List (MutexLock.Act (QueueOp φ))}
    {t : MutexLock (QueueOp φ) ν} (hd : c.view d = .empty)
    (hrun : Steps.run (MutexLock.step c.code) (MutexLock.init d) as = some t) :
    (t.mutex_ = none →
      c.view t.data = ((served c d as).map Prod.snd).foldl (fun q o => o.apply q) .empty ∧
      (batches .empty ((served c d as).map Prod.snd)).flatten ++ (c.view t.data).pending =
        ((served c d as).map Prod.snd).filterMap pushed) ∧
      ∀ n, as.filterMap (MutexLock.Act.called n) =
        Monitor.ofThread n (served c d as) ++ (t.stage n).monitor.called := by
  have hmoved := MutexLock.moved_run (MutexLock.held_init d) hrun
  obtain ⟨-, hdata, hcalls⟩ := Monitor.serial c.waitless hmoved
  refine ⟨?_, ?_⟩
  · intro hm
    have hview : c.view t.data =
        ((served c d as).map Prod.snd).foldl (fun q o => o.apply q) .empty := by
      refine (congrArg c.view (hdata hm)).trans ((view_foldl c _ d).trans ?_)
      rw [hd]
      rfl
    refine ⟨hview, ?_⟩
    rw [hview]
    exact batches_pending _ _
  · intro n
    rw [← MutexLock.calls_moved hrun n]
    exact hcalls n

/-- The two vectors, and the one through which they are swapped. -/
structure Vectors (φ : Type) where
  functors : List φ
  pendingFunctors_ : List φ
  temporary : List φ

/-- The critical sections with the swap in three moves, after the construction of `functors`. -/
def vectorCode : QueueOp φ → List (Instr (Vectors φ))
  | .queueInLoop f => [.access fun v => { v with pendingFunctors_ := v.pendingFunctors_ ++ [f] }]
  | .doPendingFunctors =>
    [.access fun v => { v with functors := [] },
      .access fun v => { v with temporary := v.functors },
      .access fun v => { v with functors := v.pendingFunctors_ },
      .access fun v => { v with pendingFunctors_ := v.temporary }]
  | .queueSize => [.access id]

def Code.vectors : Code φ (Vectors φ) where
  code := vectorCode
  view v := ⟨v.functors, v.pendingFunctors_⟩
  waitless o i hi := by
    cases o with
    | doPendingFunctors =>
      simp only [vectorCode, List.mem_cons, List.not_mem_nil, or_false] at hi
      rcases hi with rfl | rfl | rfl | rfl <;> exact ⟨_, rfl⟩
    | _ => exact ⟨_, List.mem_singleton.mp hi⟩
  view_run o d := by cases o <;> rfl

/-- A thread has queued 8, and comes with 7 while the swap is between two moves. -/
def pushWhileSwapping : List (MutexLock.Act (QueueOp Nat)) :=
  [.lock ⟨2, Nat.two_pos⟩ (.queueInLoop 8), .pthreadMutexLock ⟨2, Nat.two_pos⟩,
    .assignHolder ⟨2, Nat.two_pos⟩, .go ⟨2, Nat.two_pos⟩, .unassignHolder ⟨2, Nat.two_pos⟩,
    .pthreadMutexUnlock ⟨2, Nat.two_pos⟩, .lock ⟨1, Nat.one_pos⟩ .doPendingFunctors,
    .pthreadMutexLock ⟨1, Nat.one_pos⟩, .assignHolder ⟨1, Nat.one_pos⟩, .go ⟨1, Nat.one_pos⟩,
    .go ⟨1, Nat.one_pos⟩, .lock ⟨2, Nat.two_pos⟩ (.queueInLoop 7), .go ⟨1, Nat.one_pos⟩,
    .go ⟨1, Nat.one_pos⟩, .unassignHolder ⟨1, Nat.one_pos⟩, .pthreadMutexUnlock ⟨1, Nat.one_pos⟩]

theorem queue_serial_swapping : ∃ t,
    Steps.run (MutexLock.step Code.vectors.code) (MutexLock.init ⟨[], [], []⟩) pushWhileSwapping =
      some t ∧
    Code.vectors.view t.data = ⟨[8], []⟩ := by
  have hrun : Steps.run (MutexLock.step Code.vectors.code) (MutexLock.init ⟨[], [], []⟩)
      pushWhileSwapping = some _ := rfl
  exact ⟨_, hrun, ((queue_serial Code.vectors rfl hrun).1 rfl).1⟩

end QueueOp

end SimpleNet
