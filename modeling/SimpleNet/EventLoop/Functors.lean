import SimpleNet.EventLoop.Basic

/-!
# The functors of a loop

* `functors_in_order`: at every point of every run the functors that were started, then the
  rest of the batch, then `pendingFunctors_` are the functors queued so far, in the order of
  their `push_back`; the started ones never go beyond the last swap, and outside of
  `doPendingFunctors` they are exactly the functors queued before it.
* `awake`: a loop that polls with functors pending will be woken, in the runs in which the
  loop thread queues functors only from handlers and from functors.  A functor that is queued
  on the loop thread before `loop()` is not followed by a `wakeup()` (`queued_before_loop`).
-/

namespace SimpleNet

namespace EventLoop

open Function (update)

variable {φ : Type} {s t : EventLoop φ} {a : Act φ}

/-! ### The functors queued -/

@[simp] theorem queueInLoop_phase (s : EventLoop φ) (f : φ) : (s.queueInLoop f).phase = s.phase := by
  unfold queueInLoop
  split <;> rfl

@[simp] theorem queueInLoop_functors (s : EventLoop φ) (f : φ) :
    (s.queueInLoop f).functors = s.functors.push f := by
  unfold queueInLoop
  split <;> rfl

@[simp] theorem queueInLoop_pushed (s : EventLoop φ) (f : φ) :
    (s.queueInLoop f).pushed = s.pushed ++ [f] := by
  unfold queueInLoop
  split <;> rfl

@[simp] theorem queueInLoop_started (s : EventLoop φ) (f : φ) :
    (s.queueInLoop f).started = s.started := by
  unfold queueInLoop
  split <;> rfl

@[simp] theorem queueInLoop_swapped (s : EventLoop φ) (f : φ) :
    (s.queueInLoop f).swapped = s.swapped := by
  unfold queueInLoop
  split <;> rfl

@[simp] theorem queueInLoop_calling (s : EventLoop φ) (f : φ) :
    (s.queueInLoop f).callingPendingFunctors = s.callingPendingFunctors := by
  unfold queueInLoop
  split <;> rfl

@[simp] theorem queueInLoop_looping (s : EventLoop φ) (f : φ) :
    (s.queueInLoop f).looping = s.looping := by
  unfold queueInLoop
  split <;> rfl

/-- `looping_` and `callingPendingFunctors_` say where the loop thread is. -/
structure Control (s : EventLoop φ) : Prop where
  looping : s.looping = false → s.phase = .outside
  calling : s.callingPendingFunctors = s.phase.inBatch

theorem control_stepped (h : Control s) (hst : Stepped s a t) : Control t := by
  have hl : ∀ {p : Phase}, s.phase = p → p ≠ .outside → s.looping ≠ false := by
    rintro p rfl hp hl
    exact hp (h.looping hl)
  have hc := h.calling
  cases hst with
  | nested | quit | pushBack | setQuit | wakeup => exact ⟨h.looping, hc⟩
  | queueInLoop => exact ⟨by simpa using h.looping, by simpa using hc⟩
  | loop hu hl' =>
    rw [h.looping hl'] at hc
    exact ⟨fun hl => Bool.noConfusion hl, hc⟩
  | stop hp =>
    rw [hp] at hc
    exact ⟨fun _ => rfl, hc⟩
  | reset hp | goOn hp | poll hp | handleRead hp | run hp | ret hp | leave hp =>
    rw [hp] at hc
    exact ⟨fun hl' => absurd hl' (hl hp (by simp)), hc⟩
  | doPendingFunctors hp | finish hp =>
    exact ⟨fun hl' => absurd hl' (hl hp (by simp)), rfl⟩

theorem control_init : Control (init : EventLoop φ) := ⟨fun _ => rfl, rfl⟩

/-! ### The order of the functors -/

/-- The functors are started in the order in which they were queued, each once, and a call of
`doPendingFunctors` starts exactly those that were queued before its swap. -/
structure InOrder (s : EventLoop φ) : Prop where
  order : s.pushed = s.started ++ s.functors.queue
  /-- none that was queued after the swap -/
  bounded : s.started.length ≤ s.swapped
  /-- all that were queued before it -/
  returned : s.phase.inBatch = false → s.started = s.pushed.take s.swapped

/-- The rest of the batch are the functors up to the swap. -/
structure BatchInv (s : EventLoop φ) : Prop where
  order : s.pushed = s.started ++ s.functors.queue
  swapped : s.swapped = s.started.length + s.functors.rest.length
  rest : s.phase.inBatch = false → s.functors.rest = []

theorem BatchInv.inOrder (h : BatchInv s) : InOrder s where
  order := h.order
  bounded := by
    have := h.swapped
    omega
  returned hp := by
    rw [h.swapped, h.rest hp, List.length_nil, Nat.add_zero, h.order, List.take_left]

theorem BatchInv.push (h : BatchInv s) {f : φ} (hp : t.phase = s.phase)
    (hf : t.functors = s.functors.push f) (hpu : t.pushed = s.pushed ++ [f])
    (hst : t.started = s.started) (hsw : t.swapped = s.swapped) : BatchInv t where
  order := by rw [hpu, hf, hst, Batched.queue_push, h.order, List.append_assoc]
  swapped := by rw [hsw, hst, hf, Batched.push_rest, h.swapped]
  rest hb := by
    rw [hp] at hb
    rw [hf, Batched.push_rest, h.rest hb]

/-- A step that leaves the functors where they are. -/
theorem BatchInv.same (h : BatchInv s) (hf : t.functors = s.functors) (hpu : t.pushed = s.pushed)
    (hst : t.started = s.started) (hsw : t.swapped = s.swapped)
    (hp : t.phase.inBatch = false → s.phase.inBatch = false ∨ s.functors.rest = []) :
    BatchInv t where
  order := by rw [hpu, hf, hst, h.order]
  swapped := by rw [hsw, hst, hf, h.swapped]
  rest hb := by
    rw [hf]
    rcases hp hb with hp | hp
    · exact h.rest hp
    · exact hp

theorem batchInv_stepped (hc : Control s) (h : BatchInv s) (hst : Stepped s a t) : BatchInv t := by
  cases hst with
  | nested => exact h.same rfl rfl rfl rfl Or.inl
  | loop hu hl => exact h.same rfl rfl rfl rfl fun _ => Or.inl (by rw [hc.looping hl]; rfl)
  | reset hp | stop hp | goOn hp | poll hp | handleRead hp =>
    exact h.same rfl rfl rfl rfl fun _ => Or.inl (by rw [hp]; rfl)
  | leave hp => exact h.same rfl rfl rfl rfl fun _ => Or.inl (by rw [hp]; rfl)
  | doPendingFunctors hp =>
    have hr := h.rest (by rw [hp]; rfl)
    refine ⟨?_, ?_, fun hb => by cases hb⟩
    · rw [show s.doPendingFunctors.functors = s.functors.swap from rfl, Batched.queue_swap hr]
      exact h.order
    · have hl := congrArg List.length h.order
      simp only [Batched.queue, hr, List.nil_append, List.length_append] at hl
      exact hl
  | @run f fs hp hr =>
    refine ⟨?_, ?_, fun hb => by cases hb⟩
    · rw [List.append_assoc, List.singleton_append, ← Batched.queue_of_rest hr]
      exact h.order
    · have := h.swapped
      simp only [hr, List.length_cons] at this
      simp only [List.length_append, List.length_singleton, Batched.tail, hr, List.tail_cons]
      omega
  | ret hp => exact h.same rfl rfl rfl rfl fun hb => by cases hb
  | finish hp hr => exact h.same rfl rfl rfl rfl fun _ => Or.inr hr
  | @queueInLoop f => exact h.push (f := f) (by simp) (by simp) (by simp) (by simp) (by simp)
  | quit | setQuit | wakeup => exact h.same rfl rfl rfl rfl Or.inl
  | pushBack ht => exact h.push rfl rfl rfl rfl rfl

/-- **Queued functors run exactly once, in order, in bounded batches.** -/
theorem functors_in_order {as : List (Act φ)} {t : EventLoop φ}
    (hrun : Steps.run step init as = some t) : InOrder t := by
  have h : Control t ∧ BatchInv t := by
    refine Steps.run_invariant (I := fun s => Control s ∧ BatchInv s) ?_ ?_ hrun
    · rintro s a u ⟨hc, h⟩ hs
      exact ⟨control_stepped hc (step_stepped hs), batchInv_stepped hc h (step_stepped hs)⟩
    · exact ⟨control_init, rfl, rfl, fun _ => rfl⟩
  exact h.2.inOrder

/-- The first functor queues itself again while it runs; the second comes from another thread. -/
def queuedAgain : List (Act Nat) :=
  [.loop, .reset, .test, .pushBack 0 1, .poll false, .pushBack 1 2, .doPendingFunctors, .run,
    .queueInLoop 1, .ret, .run, .ret, .finish]

theorem functors_in_order_again : ∃ t, Steps.run step init queuedAgain = some t ∧
    t.started = [1, 2] ∧ t.functors.pending = [1] ∧ InOrder t := by
  have hobs : (Steps.run step init queuedAgain).any
      (fun t => decide (t.started = [1, 2] ∧ t.functors.pending = [1])) = true := by decide
  obtain ⟨t, ht, hobs⟩ := (Option.any_eq_true _ _).mp hobs
  obtain ⟨h1, h2⟩ := of_decide_eq_true hobs
  exact ⟨t, ht, h1, h2, functors_in_order ht⟩

/-! ### Waking up -/

/-- A functor that waits will wake the loop up: the eventfd is readable, or the thread that
queued it is about to make it so. -/
def Woken (s : EventLoop φ) : Prop :=
  s.functors.pending = [] ∨ 0 < s.wakeups ∨ ∃ n, s.threads n = .queueInLoop

/-- No functor waits in a sleeping loop. -/
def Awake (s : EventLoop φ) : Prop := s.phase = .poll → Woken s

/-- On the loop thread, `queueInLoop` is called by handlers and by functors. -/
def AwakeOk (s : EventLoop φ) : Act φ → Prop
  | .queueInLoop _ => s.phase.handles = true ∨ s.phase.inBatch = true
  | _ => True

instance (s : EventLoop φ) : (a : Act φ) → Decidable (AwakeOk s a)
  | .queueInLoop _ => inferInstanceAs (Decidable (_ ∨ _))
  | .loop | .reset | .test | .poll _ | .handleRead | .doPendingFunctors | .run | .ret | .finish
  | .leave | .quit | .pushBack .. | .setQuit _ | .wakeup _ => .isTrue trivial

theorem wakeup_pos (s : EventLoop φ) : 0 < s.wakeup.wakeups := by
  have hmax : 0 < eventfdMax := by decide
  unfold wakeup
  simp only
  split <;> omega

/-- A functor queued by a functor is followed by a `wakeup()`. -/
theorem woken_queueInLoop (hc : Control s) (hb : s.phase.inBatch = true) (f : φ) :
    Woken (s.queueInLoop f) := by
  rw [queueInLoop, hc.calling, hb]
  exact Or.inr (Or.inl (wakeup_pos (s.pushBack f)))

theorem Woken.setQuit (h : Woken s) {n : Nat} (hn : s.threads n = .idle) :
    Woken { s with quit := true, threads := update s.threads n .quit } := by
  refine h.imp_right (Or.imp_right fun ⟨m, hm⟩ => ⟨m, ?_⟩)
  have hmn : m ≠ n := by
    rintro rfl
    rw [hn] at hm
    cases hm
  exact (Function.update_of_ne hmn _ _).trans hm

/-- Outside of the handlers the functors that wait will wake the loop up. -/
theorem woken_stepped (hc : Control s) (h : s.phase.handles = false → Woken s)
    (hok : AwakeOk s a) (hst : Stepped s a t) (ht : t.phase.handles = false) : Woken t := by
  cases hst with
  | nested | quit => exact h ht
  | loop hu hl => exact h (by rw [hc.looping hl]; rfl)
  | reset hp | stop hp | goOn hp | run hp | ret hp | finish hp | leave hp =>
    exact h (by rw [hp]; rfl)
  | poll => cases ht
  | handleRead => cases ht
  | doPendingFunctors => exact Or.inl rfl
  | @queueInLoop f =>
    rw [queueInLoop_phase] at ht
    rcases hok with hh | hb
    · rw [ht] at hh
      cases hh
    · exact woken_queueInLoop hc hb f
  | @pushBack n f => exact Or.inr (Or.inr ⟨n, Function.update_self _ _ _⟩)
  | setQuit hn => exact (h ht).setQuit hn
  | wakeup => exact Or.inr (Or.inl (wakeup_pos s))

/-- **A polling loop with functors pending is woken**, in every run in which the loop thread
queues functors only from handlers and from functors. -/
theorem awake {as : List (Act φ)} {t : EventLoop φ}
    (hrun : Steps.run (Steps.guarded AwakeOk step) init as = some t) : Awake t := by
  have h : Control t ∧ (t.phase.handles = false → Woken t) := by
    refine Steps.run_invariant
      (I := fun s => Control s ∧ (s.phase.handles = false → Woken s)) ?_ ?_ hrun
    · rintro s a u ⟨hc, h⟩ hs
      obtain ⟨hok, hs⟩ := Steps.guarded_eq_some.mp hs
      exact ⟨control_stepped hc (step_stepped hs), woken_stepped hc h hok (step_stepped hs)⟩
    · exact ⟨control_init, fun _ => Or.inl rfl⟩
  exact fun hp => h.2 (by rw [hp]; rfl)

/-- A functor queues another one while a third comes from another thread; the loop polls again. -/
def requeued : List (Act Nat) :=
  [.loop, .reset, .test, .pushBack 0 1, .wakeup 0, .poll true, .handleRead, .doPendingFunctors,
    .run, .queueInLoop 2, .ret, .finish, .pushBack 1 3, .leave, .test]

theorem awake_requeued : ∃ t, Steps.run (Steps.guarded AwakeOk step) init requeued = some t ∧
    t.phase = .poll ∧ t.functors.pending = [2, 3] ∧ Awake t := by
  have hobs : (Steps.run (Steps.guarded AwakeOk step) init requeued).any
      (fun t => decide (t.phase = .poll ∧ t.functors.pending = [2, 3])) = true := by decide
  obtain ⟨t, ht, hobs⟩ := (Option.any_eq_true _ _).mp hobs
  obtain ⟨hp, hf⟩ := of_decide_eq_true hobs
  exact ⟨t, ht, hp, hf, awake ht⟩

/-- Before `loop()` (or in a `ThreadInitCallback`) the loop thread queues a functor. -/
def queuedBeforeLoop : List (Act Nat) := [.queueInLoop 1, .loop, .reset, .test]

/-- The functor waits in a sleeping loop. -/
theorem queued_before_loop : ∃ t, Steps.run step init queuedBeforeLoop = some t ∧ ¬ Awake t := by
  refine ⟨_, rfl, ?_⟩
  intro h
  rcases h rfl with h | h | ⟨n, h⟩
  · cases h
  · exact absurd h (by decide)
  · cases h

end EventLoop

end SimpleNet
