import SimpleNet.EventLoop.Functors

/-!
# A loop in a thread of its own

`EventLoopThread`: `threadFunc` constructs the loop, publishes it in `loop_`, runs `loop()` and
clears `loop_`; the owner waits in `startLoop` for `loop_`, and its destructor tests `loop_`,
reads it again, calls `quit()` and joins the thread.  Each access to `loop_` and `quit_` is a
step, and `quit()` may also be called by the loop's own callbacks and by other threads.

`quit_kept`: `quit_` stays set from a `quit()` to the end of the while loop, and the
destructor's `quit()` finds the loop, in the runs in which no `quit()` comes before
`quit_ = false` in `loop()` and the loop is not cleared and destroyed between the destructor's
test of `loop_` and the end of its `quit()`.  `loop()` overwrites a `quit()` that came earlier,
and the destructor then waits for ever (`quit_lost`).
-/

namespace SimpleNet

/-- Where the thread is in `threadFunc`. -/
inductive ThreadFunc
  /-- the loop is constructed; `callback_(&loop)` may run -/
  | callback
  /-- `loop_` is published -/
  | published
  /-- in `loop.loop()` -/
  | looping
  /-- `loop.loop()` has returned -/
  | returned
  /-- `loop_ = NULL` -/
  | cleared
  /-- the loop is destroyed -/
  | finished
  deriving DecidableEq, Repr

/-- Where the owner is. -/
inductive Owner
  /-- `startLoop` waits for `loop_` -/
  | starting
  | started
  /-- the destructor has found `loop_ != NULL` -/
  | tested
  /-- it has read `loop_` for its call of `quit()` -/
  | loaded
  /-- `quit()` has set `quit_`; its `wakeup()` is to come -/
  | quitting
  | joining
  | done
  deriving DecidableEq, Repr

structure EventLoopThread (φ : Type) where
  loop : EventLoop φ
  /-- `loop_ != NULL` -/
  loop_ : Bool
  exiting : Bool
  thread : ThreadFunc
  owner : Owner
  /-- history: `quit()` has been called -/
  quitCalled : Bool
  /-- history: the destructor has called `quit()` on `NULL` or on a destroyed loop -/
  dangling : Bool

namespace EventLoopThread

variable {φ : Type}

def init : EventLoopThread φ where
  loop := .init
  loop_ := false
  exiting := false
  thread := .callback
  owner := .starting
  quitCalled := false
  dangling := false

/-- The steps of the two threads, and of others that use the loop. -/
inductive Act (φ : Type)
  /-- a step of the loop thread in `callback_` and in `loop()`, or of another thread -/
  | inLoop (a : EventLoop.Act φ)
  /-- `loop_ = &loop` -/
  | publish
  /-- `loop()` is called by `threadFunc` -/
  | enter
  /-- `loop()` has left its while loop and returns -/
  | leave
  /-- `loop_ = NULL` -/
  | clear
  /-- the end of `threadFunc` -/
  | destroy
  /-- `startLoop` returns -/
  | startLoop
  /-- the destructor: `if(loop_ != NULL)` -/
  | test
  /-- the destructor reads `loop_` again -/
  | load
  /-- `quit_ = true` in its call of `quit()` -/
  | quit
  /-- `wakeup()` in its call of `quit()` -/
  | wakeup
  /-- `thread_.join()` returns -/
  | join
  deriving DecidableEq, Repr

/-- The step of the loop is a `quit()`. -/
def quits : EventLoop.Act φ → Bool
  | .quit | .setQuit _ => true
  | _ => false

/-- Who may use the loop: other threads while it exists, its own thread in `callback_` and in
`loop()`. -/
def uses (s : EventLoopThread φ) : EventLoop.Act φ → Bool
  | .loop => false
  | .pushBack .. | .setQuit _ | .wakeup _ => s.thread != .finished
  | _ => s.thread == .callback || s.thread == .looping && s.loop.looping

def step (s : EventLoopThread φ) (a : Act φ) : Option (EventLoopThread φ) :=
  if s.dangling then none else
  match a with
  | .inLoop a =>
    if s.uses a then
      (s.loop.step a).map fun l => { s with loop := l, quitCalled := s.quitCalled || quits a }
    else none
  | .publish =>
    if s.thread = .callback then some { s with loop_ := true, thread := .published } else none
  | .enter =>
    if s.thread = .published then
      (s.loop.step .loop).map fun l => { s with loop := l, thread := .looping }
    else none
  | .leave =>
    if s.thread = .looping ∧ s.loop.looping = false then some { s with thread := .returned }
    else none
  | .clear =>
    if s.thread = .returned then some { s with loop_ := false, thread := .cleared } else none
  | .destroy => if s.thread = .cleared then some { s with thread := .finished } else none
  | .startLoop =>
    if s.owner = .starting ∧ s.loop_ = true then some { s with owner := .started } else none
  | .test =>
    if s.owner = .started then
      some { s with exiting := true, owner := if s.loop_ then .tested else .done }
    else none
  | .load =>
    if s.owner = .tested then
      some (if s.loop_ then { s with owner := .loaded } else { s with dangling := true })
    else none
  | .quit =>
    if s.owner = .loaded then
      some (if s.thread = .finished then { s with dangling := true } else
        { s with loop := { s.loop with quit := true }, quitCalled := true, owner := .quitting })
    else none
  | .wakeup =>
    if s.owner = .quitting then
      some (if s.thread = .finished then { s with dangling := true } else
        { s with loop := s.loop.wakeup, owner := .joining })
    else none
  | .join =>
    if s.owner = .joining ∧ s.thread = .finished then some { s with owner := .done } else none

/-- What each step does, with what it has tested. -/
inductive Stepped (s : EventLoopThread φ) : Act φ → EventLoopThread φ → Prop
  | inLoop (a : EventLoop.Act φ) (l : EventLoop φ) (hu : s.uses a = true)
      (hl : EventLoop.Stepped s.loop a l) :
      Stepped s (.inLoop a) { s with loop := l, quitCalled := s.quitCalled || quits a }
  | publish (ht : s.thread = .callback) :
      Stepped s .publish { s with loop_ := true, thread := .published }
  | enter (l : EventLoop φ) (ht : s.thread = .published) (hl : EventLoop.Stepped s.loop .loop l) :
      Stepped s .enter { s with loop := l, thread := .looping }
  | leave (ht : s.thread = .looping) (hl : s.loop.looping = false) :
      Stepped s .leave { s with thread := .returned }
  | clear (ht : s.thread = .returned) :
      Stepped s .clear { s with loop_ := false, thread := .cleared }
  | destroy (ht : s.thread = .cleared) : Stepped s .destroy { s with thread := .finished }
  | startLoop : Stepped s .startLoop { s with owner := .started }
  | test : Stepped s .test { s with exiting := true, owner := if s.loop_ then .tested else .done }
  | load (ho : s.owner = .tested) :
      Stepped s .load (if s.loop_ then { s with owner := .loaded } else { s with dangling := true })
  | quit (ho : s.owner = .loaded) : Stepped s .quit
      (if s.thread = .finished then { s with dangling := true } else
        { s with loop := { s.loop with quit := true }, quitCalled := true, owner := .quitting })
  | wakeup (ho : s.owner = .quitting) : Stepped s .wakeup
      (if s.thread = .finished then { s with dangling := true } else
        { s with loop := s.loop.wakeup, owner := .joining })
  | join : Stepped s .join { s with owner := .done }

theorem step_stepped {s t : EventLoopThread φ} {a : Act φ} (hst : step s a = some t) :
    Stepped s a t := by
  unfold step at hst
  split at hst
  · cases hst
  cases a with
  | inLoop a =>
    simp only [Option.ite_none_right_eq_some, Option.map_eq_some_iff] at hst
    obtain ⟨hu, l, hl, rfl⟩ := hst
    exact .inLoop a l hu (EventLoop.step_stepped hl)
  | enter =>
    simp only [Option.ite_none_right_eq_some, Option.map_eq_some_iff] at hst
    obtain ⟨ht, l, hl, rfl⟩ := hst
    exact .enter l ht (EventLoop.step_stepped hl)
  | publish =>
    simp only [Option.ite_none_right_eq_some, Option.some.injEq] at hst
    obtain ⟨ht, rfl⟩ := hst
    exact .publish ht
  | leave =>
    simp only [Option.ite_none_right_eq_some, Option.some.injEq] at hst
    obtain ⟨⟨ht, hl⟩, rfl⟩ := hst
    exact .leave ht hl
  | clear =>
    simp only [Option.ite_none_right_eq_some, Option.some.injEq] at hst
    obtain ⟨ht, rfl⟩ := hst
    exact .clear ht
  | destroy =>
    simp only [Option.ite_none_right_eq_some, Option.some.injEq] at hst
    obtain ⟨ht, rfl⟩ := hst
    exact .destroy ht
  | startLoop =>
    simp only [Option.ite_none_right_eq_some, Option.some.injEq] at hst
    obtain ⟨-, rfl⟩ := hst
    exact .startLoop
  | test =>
    simp only [Option.ite_none_right_eq_some, Option.some.injEq] at hst
    obtain ⟨-, rfl⟩ := hst
    exact .test
  | load =>
    simp only [Option.ite_none_right_eq_some, Option.some.injEq] at hst
    obtain ⟨ho, rfl⟩ := hst
    exact .load ho
  | quit =>
    simp only [Option.ite_none_right_eq_some, Option.some.injEq] at hst
    obtain ⟨ho, rfl⟩ := hst
    exact .quit ho
  | wakeup =>
    simp only [Option.ite_none_right_eq_some, Option.some.injEq] at hst
    obtain ⟨ho, rfl⟩ := hst
    exact .wakeup ho
  | join =>
    simp only [Option.ite_none_right_eq_some, Option.some.injEq] at hst
    obtain ⟨-, rfl⟩ := hst
    exact .join

/-! ### Quitting -/

/-- No quit request is lost. -/
structure QuitKept (s : EventLoopThread φ) : Prop where
  /-- `quit_` stays set until the while loop has been left -/
  kept : s.quitCalled = true →
    s.thread = .callback ∨ s.thread = .published ∨ s.thread = .looping → s.loop.quit = true
  /-- `quit()` is called on a loop that exists -/
  alive : s.dangling = false
  /-- the destructor does not join a loop that goes on -/
  joins : ¬ (s.owner = .joining ∧ s.loop.looping = true ∧ s.loop.quit = false)

/-- `loop()` has still to execute `quit_ = false`. -/
def Unreset (s : EventLoopThread φ) : Prop :=
  s.thread = .callback ∨ s.thread = .published ∨ s.loop.phase = .entered

instance (s : EventLoopThread φ) : Decidable s.Unreset := inferInstanceAs (Decidable (_ ∨ _ ∨ _))

/-- Where a `quit()` takes effect. -/
def QuitOk (s : EventLoopThread φ) : Act φ → Prop
  | .inLoop a => quits a = true → ¬ s.Unreset
  | .quit => ¬ s.Unreset
  | .clear => s.owner ≠ .tested
  | .destroy => s.owner ≠ .loaded ∧ s.owner ≠ .quitting
  | _ => True

instance (s : EventLoopThread φ) : (a : Act φ) → Decidable (QuitOk s a)
  | .inLoop _ => inferInstanceAs (Decidable (_ → _))
  | .quit => inferInstanceAs (Decidable (¬ _))
  | .clear => inferInstanceAs (Decidable (_ ≠ _))
  | .destroy => inferInstanceAs (Decidable (_ ∧ _))
  | .publish | .enter | .leave | .startLoop | .test | .load | .wakeup | .join => .isTrue trivial

section

variable {l m : EventLoop φ} {a : EventLoop.Act φ}

theorem quit_stepped (h : EventLoop.Stepped l a m) (hq : l.quit = true) (ha : a ≠ .reset) :
    m.quit = true := by
  cases h with
  | reset => exact absurd rfl ha
  | queueInLoop =>
    rw [EventLoop.queueInLoop]
    split <;> exact hq
  | quit | setQuit => rfl
  | _ => exact hq

theorem quit_of_quits (h : EventLoop.Stepped l a m) (ha : quits a = true) : m.quit = true := by
  cases h <;> first | rfl | cases ha

theorem looping_stepped (h : EventLoop.Stepped l a m) (ha : a ≠ .loop) (hm : m.looping = true) :
    l.looping = true := by
  cases h with
  | nested | loop => exact absurd rfl ha
  | stop => cases hm
  | queueInLoop => rwa [EventLoop.queueInLoop_looping] at hm
  | _ => exact hm

theorem entered_stepped (h : EventLoop.Stepped l a m) (ha : a ≠ .loop) (hm : m.phase = .entered) :
    l.phase = .entered := by
  cases h with
  | nested | loop => exact absurd rfl ha
  | queueInLoop => rwa [EventLoop.queueInLoop_phase] at hm
  | quit | pushBack | setQuit | wakeup => exact hm
  | _ => cases hm

end

/-- What `quit_` says while the loop runs. -/
structure LoopInv (s : EventLoopThread φ) : Prop where
  control : s.loop.Control
  looping : s.loop.looping = true → s.thread = .looping
  /-- no `quit()` comes before `quit_ = false` -/
  fresh : s.Unreset → s.quitCalled = false
  kept : s.quitCalled = true → s.thread = .looping → s.loop.quit = true

/-- What the owner knows of the loop. -/
structure OwnerInv (s : EventLoopThread φ) : Prop where
  loop_ : s.loop_ = true ↔ s.thread = .published ∨ s.thread = .looping ∨ s.thread = .returned
  tested : s.owner = .tested → s.loop_ = true
  exists_ : s.owner = .loaded ∨ s.owner = .quitting → s.thread ≠ .finished
  called : s.owner = .quitting ∨ s.owner = .joining → s.quitCalled = true
  alive : s.dangling = false

theorem quitKept_of_inv {s : EventLoopThread φ} (h : LoopInv s) (ho : OwnerInv s) : QuitKept s where
  kept hq ht := by
    rcases ht with ht | ht | ht
    · rw [h.fresh (Or.inl ht)] at hq
      cases hq
    · rw [h.fresh (Or.inr (Or.inl ht))] at hq
      cases hq
    · exact h.kept hq ht
  alive := ho.alive
  joins := by
    rintro ⟨hj, hl, hq⟩
    rw [h.kept (ho.called (Or.inr hj)) (h.looping hl)] at hq
    cases hq

theorem ne_loop_of_uses {s : EventLoopThread φ} {a : EventLoop.Act φ} (h : s.uses a = true) :
    a ≠ .loop := by
  rintro rfl
  cases h

/-- A step of the loop, in its thread or in another one. -/
theorem loopInv_inLoop {s : EventLoopThread φ} {a : EventLoop.Act φ} {l : EventLoop φ}
    (h : LoopInv s) (ha : a ≠ .loop) (hok : quits a = true → ¬ s.Unreset)
    (hst : EventLoop.Stepped s.loop a l) :
    LoopInv { s with loop := l, quitCalled := s.quitCalled || quits a } where
  control := EventLoop.control_stepped h.control hst
  looping hl := h.looping (looping_stepped hst ha hl)
  fresh hu := by
    have hs : s.Unreset := hu.imp_right (Or.imp_right (entered_stepped hst ha))
    have hq : quits a = false := by
      by_contra hq
      exact hok ((Bool.not_eq_false _).mp hq) hs
    simp [h.fresh hs, hq]
  kept hq ht := by
    rcases Bool.or_eq_true_iff.mp hq with hq | hq
    · apply quit_stepped hst (h.kept hq ht)
      rintro rfl
      cases hst with
      | reset hp =>
        rw [h.fresh (Or.inr (Or.inr hp))] at hq
        cases hq
    · exact quit_of_quits hst hq

/-- The thread goes on outside of `loop()`. -/
theorem LoopInv.goOn {s t : EventLoopThread φ} (h : LoopInv s) (hl : t.loop = s.loop)
    (hq : t.quitCalled = s.quitCalled) (hs : s.loop.looping = false) (ht : t.thread ≠ .looping)
    (hf : t.thread = .callback ∨ t.thread = .published → s.thread = .callback) : LoopInv t where
  control := hl ▸ h.control
  looping hl' := by
    rw [hl, hs] at hl'
    cases hl'
  fresh hu := by
    rw [hq]
    refine h.fresh ?_
    rcases hu with hu | hu | hu
    · exact Or.inl (hf (Or.inl hu))
    · exact Or.inl (hf (Or.inr hu))
    · exact Or.inr (Or.inr (hl ▸ hu))
  kept _ ht' := absurd ht' ht

/-- The owner goes on and leaves the loop as it is. -/
theorem LoopInv.owner {s t : EventLoopThread φ} (h : LoopInv s) (hl : t.loop = s.loop)
    (ht : t.thread = s.thread) (hq : t.quitCalled = s.quitCalled) : LoopInv t where
  control := hl ▸ h.control
  looping := by
    rw [hl, ht]
    exact h.looping
  fresh := by
    unfold Unreset
    rw [hl, ht, hq]
    exact h.fresh
  kept := by
    rw [hl, ht, hq]
    exact h.kept

theorem loopInv_stepped {s t : EventLoopThread φ} {a : Act φ} (h : LoopInv s) (hok : QuitOk s a)
    (hst : Stepped s a t) : LoopInv t := by
  have hout : s.thread ≠ .looping → s.loop.looping = false := by
    intro ht
    by_contra hl
    exact ht (h.looping ((Bool.not_eq_false _).mp hl))
  cases hst with
  | inLoop a l hu hl => exact loopInv_inLoop h (ne_loop_of_uses hu) hok hl
  | enter l ht hl =>
    have hq := h.fresh (Or.inr (Or.inl ht))
    refine ⟨EventLoop.control_stepped h.control hl, fun _ => rfl, fun _ => hq, ?_⟩
    intro hq'
    rw [hq] at hq'
    cases hq'
  | publish ht => exact h.goOn rfl rfl (hout (by simp [ht])) (by simp) fun _ => ht
  | leave ht hl => exact h.goOn rfl rfl hl (by simp) (by simp)
  | clear ht | destroy ht => exact h.goOn rfl rfl (hout (by simp [ht])) (by simp) (by simp)
  | startLoop | test | join => exact h.owner rfl rfl rfl
  | load ho => split <;> exact h.owner rfl rfl rfl
  | quit ho =>
    split
    · exact h.owner rfl rfl rfl
    · exact ⟨⟨h.control.looping, h.control.calling⟩, h.looping, fun hu => absurd hu hok,
        fun _ _ => rfl⟩
  | wakeup ho =>
    split
    · exact h.owner rfl rfl rfl
    · exact ⟨⟨h.control.looping, h.control.calling⟩, h.looping, h.fresh, h.kept⟩

theorem ownerInv_stepped {s t : EventLoopThread φ} {a : Act φ} (h : OwnerInv s) (hok : QuitOk s a)
    (hst : Stepped s a t) : OwnerInv t := by
  cases hst with
  | inLoop a l hu hl =>
    exact ⟨h.loop_, h.tested, h.exists_, fun ho => by simp [h.called ho], h.alive⟩
  | enter l ht hl => exact ⟨by simp [h.loop_, ht], h.tested, by simp, h.called, h.alive⟩
  | publish ht => exact ⟨by simp, fun _ => rfl, by simp, h.called, h.alive⟩
  | leave ht hl => exact ⟨by simp [h.loop_, ht], h.tested, by simp, h.called, h.alive⟩
  | clear ht => exact ⟨by simp, fun ho => absurd ho hok, by simp, h.called, h.alive⟩
  | destroy ht =>
    exact ⟨by simp [h.loop_, ht], h.tested, fun ho => absurd ho (not_or.mpr hok), h.called, h.alive⟩
  | startLoop | join => exact ⟨h.loop_, by simp, by simp, by simp, h.alive⟩
  | test =>
    split
    · next hl => exact ⟨h.loop_, fun _ => hl, by simp, by simp, h.alive⟩
    · exact ⟨h.loop_, by simp, by simp, by simp, h.alive⟩
  | load ho =>
    have hl := h.tested ho
    rw [if_pos hl]
    refine ⟨h.loop_, by simp, ?_, by simp, h.alive⟩
    intro _ ht
    simpa [show s.thread = .finished from ht] using h.loop_.mp hl
  | quit ho =>
    have ht := h.exists_ (Or.inl ho)
    rw [if_neg ht]
    exact ⟨h.loop_, by simp, fun _ => ht, fun _ => rfl, h.alive⟩
  | wakeup ho =>
    rw [if_neg (h.exists_ (Or.inr ho))]
    exact ⟨h.loop_, by simp, by simp, fun _ => h.called (Or.inl ho), h.alive⟩

/-- **No quit request is lost** in every run whose steps are `QuitOk`. -/
theorem quit_kept {as : List (Act φ)} {t : EventLoopThread φ}
    (hrun : Steps.run (Steps.guarded QuitOk step) init as = some t) : QuitKept t := by
  have h : LoopInv t ∧ OwnerInv t := by
    refine Steps.run_invariant (I := fun s => LoopInv s ∧ OwnerInv s) ?_ ?_ hrun
    · rintro s a u ⟨h, ho⟩ hs
      obtain ⟨hok, hs⟩ := Steps.guarded_eq_some.mp hs
      exact ⟨loopInv_stepped h hok (step_stepped hs), ownerInv_stepped ho hok (step_stepped hs)⟩
    · exact ⟨⟨EventLoop.control_init, by simp [init, EventLoop.init], fun _ => rfl, by simp [init]⟩,
        by simp [init], by simp [init], by simp [init], by simp [init], rfl⟩
  exact quitKept_of_inv h.1 h.2

/-- The destructor quits a loop that is polling, and joins the thread. -/
def quitPolling : List (Act Nat) :=
  [.publish, .startLoop, .enter, .inLoop .reset, .inLoop .test, .test, .load, .quit, .wakeup,
    .inLoop (.poll true), .inLoop .handleRead, .inLoop .doPendingFunctors, .inLoop .finish,
    .inLoop .leave, .inLoop .test, .leave, .clear, .destroy, .join]

theorem quit_kept_polling : ∃ t, Steps.run (Steps.guarded QuitOk step) init quitPolling = some t ∧
    t.owner = .done ∧ QuitKept t := by
  have hobs : (Steps.run (Steps.guarded QuitOk step) init quitPolling).any
      (fun t => decide (t.owner = .done)) = true := by decide
  obtain ⟨t, ht, hobs⟩ := (Option.any_eq_true _ _).mp hobs
  exact ⟨t, ht, of_decide_eq_true hobs, quit_kept ht⟩

/-- `startLoop` has returned, and the destructor quits before the thread enters `loop()`. -/
def quitBeforeLoop : List (Act Nat) :=
  [.publish, .startLoop, .test, .load, .quit, .wakeup, .enter, .inLoop .reset, .inLoop .test]

/-- The destructor joins a loop that goes on. -/
theorem quit_lost : ∃ t, Steps.run step init quitBeforeLoop = some t ∧ ¬ QuitKept t := by
  have hobs : (Steps.run step init quitBeforeLoop).any (fun t => decide
      (t.owner = .joining ∧ t.loop.looping = true ∧ t.loop.quit = false)) = true := by decide
  obtain ⟨t, ht, hobs⟩ := (Option.any_eq_true _ _).mp hobs
  exact ⟨t, ht, fun h => h.joins (of_decide_eq_true hobs)⟩

end EventLoopThread

end SimpleNet
