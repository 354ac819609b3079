import SimpleNet.Timer.Ops

/-!
# The sets of a timer queue

`timers_consistent`: in every run `timers_` and `activeTimers_` hold the same timers, each under
its expiration and its sequence number, and none of the batch of `handleRead`; the assertions
hold; each timer is deleted once at most, and is not used, held or run after its `delete`.
-/

namespace SimpleNet

open Function (update)

namespace TimerQueue

/-- An element of a set or of the batch. -/
def Held (s : TimerQueue) (i : TimerId) : Prop :=
  i ∈ s.activeTimers ∨ ∃ a t, s.heap a = some t ∧ i = ⟨a, t.sequence⟩ ∧
    ((∃ e ∈ s.timers, e.timer = a) ∨ a ∈ s.batch)

/-- The sets of a timer queue are consistent. -/
structure Consistent (s : TimerQueue) : Prop where
  same : ∀ a, (∃ e ∈ s.timers, e.timer = a) ↔ ∃ i ∈ s.activeTimers, i.timer = a
  keyed : ∀ e ∈ s.timers, ∃ t, s.heap e.timer = some t ∧ t.expiration = e.when
  numbered : ∀ i ∈ s.activeTimers, ∃ t, s.heap i.timer = some t ∧ t.sequence = i.sequence
  /-- the batch is apart from both sets, and in memory -/
  batch : ∀ a ∈ s.batch, (s.heap a).isSome ∧ (∀ e ∈ s.timers, e.timer ≠ a) ∧
    ∀ i ∈ s.activeTimers, i.timer ≠ a
  distinct : s.batch.Nodup
  /-- no assertion has failed -/
  asserted : s.aborted = false
  /-- no deleted timer has been used -/
  undeleted : s.dangling = false
  once : ∀ i, s.trace.count (.delete i) ≤ 1
  held : ∀ i, .delete i ∈ s.trace → ¬ s.Held i
  run : ∀ i, ¬ [.delete i, .run i].Sublist s.trace

structure TimerInv (s : TimerQueue) : Prop where
  owned : Owned s.timers s.activeTimers s.heap (s.batch ++ s.queued)
  mortal : Mortal s.heap s.numCreated s.trace
  calling : s.callingExpiredTimers = s.handling.isSome
  todo : ∀ h ∈ s.handling, h.todo <:+ h.expired
  aborted : s.aborted = false
  dangling : s.dangling = false

section

variable {s t : TimerQueue} {a : Nat} {away : List Nat}

theorem timerInv_addTimerInLoop {x : Timer}
    (ho : Owned s.timers s.activeTimers s.heap (a :: (s.batch ++ s.queued)))
    (hm : Mortal s.heap s.numCreated s.trace) (hc : s.callingExpiredTimers = s.handling.isSome)
    (ht : ∀ h ∈ s.handling, h.todo <:+ h.expired) (hab : s.aborted = false)
    (hd : s.dangling = false) (hx : s.heap a = some x) (drift : Nat) :
    TimerInv (s.addTimerInLoop drift a) := by
  rw [addTimerInLoop_eq ho hx]
  split
  · exact ⟨ho.insert hx, hm, hc, ht, hab, hd⟩
  · exact ⟨ho.insert hx, hm, hc, ht, hab, hd⟩

theorem timerInv_cancelInLoop (h : TimerInv s) (id : TimerId) : TimerInv (s.cancelInLoop id) := by
  have hemit : ∀ {heap : Nat → Option Timer} {n : Nat} {trace : List TimerEvent},
      Mortal heap n trace → Mortal heap n (trace ++ [.cancelInLoop id]) := fun hm =>
    hm.emit (by simp) (by simp)
  by_cases hi : id ∈ s.activeTimers
  · obtain ⟨x, hx, -, -⟩ := h.owned.listed id hi
    rw [cancelInLoop_active h.owned hi hx]
    exact ⟨(owned_take h.owned hi hx).delete, hemit (h.mortal.delete hx), h.calling, h.todo,
      h.aborted, h.dangling⟩
  · rw [cancelInLoop_of_not_mem h.owned.size hi]
    exact ⟨h.owned, hemit h.mortal, h.calling, h.todo, h.aborted, h.dangling⟩

theorem mortal_settle {now : Int} {x : Timer} (h : Mortal s.heap s.numCreated s.trace)
    (hx : s.heap a = some x) : Mortal (s.settle now a x).heap (s.settle now a x).numCreated
      (s.settle now a x).trace := by
  unfold settle
  split
  · exact h.set hx (x.restart_sequence now)
  · exact h.delete hx

/-- What `reset` leaves as it is. -/
structure Resets (s t : TimerQueue) : Prop where
  handling : t.handling = s.handling
  functors : t.functors = s.functors
  calling : t.callingExpiredTimers = s.callingExpiredTimers
  canceling : t.cancelingTimers = s.cancelingTimers
  numCreated : t.numCreated = s.numCreated
  clock : t.clock = s.clock
  timerfd : t.timerfd = s.timerfd
  aborted : t.aborted = s.aborted
  dangling : t.dangling = s.dangling

theorem Resets.settle (h : Resets s t) (now : Int) (a : Nat) (x : Timer) :
    Resets s (t.settle now a x) := by
  unfold TimerQueue.settle
  split
  · exact ⟨h.handling, h.functors, h.calling, h.canceling, h.numCreated, h.clock, h.timerfd,
      h.aborted, h.dangling⟩
  · exact ⟨h.handling, h.functors, h.calling, h.canceling, h.numCreated, h.clock, h.timerfd,
      h.aborted, h.dangling⟩

/-- The timers of the batch while `handleRead` has run them all. -/
theorem TimerInv.owned_batch {now : Int} {expired : List Entry} (h : TimerInv s)
    (hh : s.handling = some ⟨now, expired, []⟩) :
    Owned s.timers s.activeTimers s.heap (expired.map Entry.timer ++ s.queued) := by
  have ho := h.owned
  rwa [batch, hh] at ho

theorem timerInv_reset {now : Int} {expired : List Entry} (h : TimerInv s)
    (hh : s.handling = some ⟨now, expired, []⟩) (drift : Nat) :
    TimerInv { { s with callingExpiredTimers := false }.reset drift expired now with
      handling := none } := by
  obtain ⟨hfold, hm, hr⟩ := foldl_resetOne now
    (I := fun _ u => Mortal u.heap u.numCreated u.trace ∧
      Resets { s with callingExpiredTimers := false } u)
    (fun e _ u x _ hx hu => ⟨mortal_settle hu.1 hx, hu.2.settle now e.timer x⟩)
    (s := { s with callingExpiredTimers := false }) (h.owned_batch hh)
    ⟨h.mortal, rfl, rfl, rfl, rfl, rfl, rfl, rfl, rfl, rfl⟩
  have hcases := reset_eq_or rfl hfold drift
  generalize List.foldl _ _ _ = u at hfold hm hr hcases
  have hq : u.queued = s.queued := by rw [queued, hr.functors]; rfl
  rw [← hq] at hfold
  have hinv : TimerInv { u with handling := none } :=
    ⟨hfold, hm, hr.calling, fun h hn => (by cases hn), hr.aborted.trans h.aborted,
      hr.dangling.trans h.dangling⟩
  obtain he | ⟨e, he⟩ := hcases
  · rw [he]
    exact hinv
  · rw [he]
    exact ⟨hinv.owned, hinv.mortal, hinv.calling, hinv.todo, hinv.aborted, hinv.dangling⟩

theorem queued_of_rest {f : TimerTask} {fs : List TimerTask} (hr : s.functors.rest = f :: fs) :
    s.queued = f.added.toList ++ { s with functors := s.functors.tail }.queued := by
  rw [queued, Batched.queue_of_rest hr]
  cases f <;> rfl

/-- A functor other than `addTimerInLoop` is taken off the queue. -/
theorem timerInv_tail (h : TimerInv s) {f : TimerTask} {fs : List TimerTask}
    (hr : s.functors.rest = f :: fs) (hf : f.added = none) :
    TimerInv { s with functors := s.functors.tail } := by
  have ho := h.owned
  rw [queued_of_rest hr, hf] at ho
  exact ⟨ho, h.mortal, h.calling, h.todo, h.aborted, h.dangling⟩

/-- The timer whose `addTimerInLoop` is the next functor. -/
theorem TimerInv.owned_next (h : TimerInv s) {fs : List TimerTask} (hn : s.handling = none)
    (hr : s.functors.rest = .addTimerInLoop a :: fs) :
    Owned s.timers s.activeTimers s.heap (a :: { s with functors := s.functors.tail }.queued) ∧
      ∃ x, s.heap a = some x := by
  have ho := h.owned
  rw [batch, hn, List.nil_append, queued_of_rest hr] at ho
  exact ⟨ho, Option.isSome_iff_exists.mp (ho.apart a List.mem_cons_self).1⟩

/-- The timer whose callback is the next is in memory. -/
theorem TimerInv.next_timer {now : Int} {expired todo : List Entry} {e : Entry} (h : TimerInv s)
    (hh : s.handling = some ⟨now, expired, e :: todo⟩) : ∃ x, s.heap e.timer = some x := by
  have hsuf : e :: todo <:+ expired := h.todo _ hh
  have hmem : e.timer ∈ s.batch ++ s.queued := by
    rw [batch, hh]
    exact List.mem_append_left _ (List.mem_map_of_mem (hsuf.subset List.mem_cons_self))
  exact Option.isSome_iff_exists.mp (h.owned.apart _ hmem).1

theorem mortal_new (h : TimerInv s) (hmax : a < UINTPTR_MAX) (when : Int) (interval : Fin (2 ^ 63))
    (repeat_ : Bool) : Mortal (s.new a when interval repeat_).heap
      (s.new a when interval repeat_).numCreated (s.new a when interval repeat_).trace :=
  (h.mortal.emit (by simp) (by simp)).new hmax rfl

theorem timerInv_runTimer {now : Int} {expired todo : List Entry} {e : Entry} {x : Timer}
    (h : TimerInv s) (hh : s.handling = some ⟨now, expired, e :: todo⟩)
    (hx : s.heap e.timer = some x) : TimerInv
      { s.emit (.run ⟨e.timer, x.sequence⟩) with handling := some ⟨now, expired, todo⟩ } := by
  have ho := h.owned
  rw [batch, hh] at ho
  refine ⟨ho, h.mortal.emit (by simp) ?_, h.calling.trans (by rw [hh]; rfl), ?_, h.aborted, h.dangling⟩
  · intro i hi
    obtain rfl := TimerEvent.run.inj hi
    exact (h.mortal.live _ x hx).2.2
  · intro k hk
    obtain rfl := Option.some.inj hk
    exact (List.suffix_cons e todo).trans (h.todo _ hh)

theorem timerInv_stepped {c : Act} (h : TimerInv s) (hst : Stepped s c t) : TimerInv t := by
  cases hst with
  | addTimer a when interval repeat_ drift hfree hmax =>
    exact timerInv_addTimerInLoop (s := s.new a when interval repeat_) (h.owned.new hfree)
      (mortal_new h hmax when interval repeat_) h.calling h.todo h.aborted h.dangling
      (Function.update_self _ _ _) drift
  | queueAdd a when interval repeat_ drift hfree hmax =>
    refine ⟨(h.owned.new hfree).perm ?_, mortal_new h hmax when interval repeat_, h.calling, h.todo,
      h.aborted, h.dangling⟩
    have hq : { s.new a when interval repeat_ with
        functors := s.functors.push (.addTimerInLoop a) }.queued = s.queued ++ [a] := by
      simp [queued, TimerTask.added]
    rw [hq, ← List.append_assoc]
    exact (List.perm_append_singleton _ _).symm
  | cancel id => exact timerInv_cancelInLoop h id
  | queueCancel id =>
    have hq : { s with functors := s.functors.push (.cancelInLoop id) }.queued = s.queued := by
      simp [queued, TimerTask.added]
    exact ⟨hq ▸ h.owned, h.mortal, h.calling, h.todo, h.aborted, h.dangling⟩
  | doPendingFunctors hr =>
    have hq : { s with functors := s.functors.swap }.queued = s.queued := by
      rw [queued, queued, Batched.queue_swap hr]
    exact ⟨hq ▸ h.owned, h.mortal, h.calling, h.todo, h.aborted, h.dangling⟩
  | runAdd a fs drift hr hn =>
    obtain ⟨ho, x, hx⟩ := h.owned_next hn hr
    refine timerInv_addTimerInLoop (s := { s with functors := s.functors.tail }) ?_ h.mortal
      h.calling h.todo h.aborted h.dangling hx drift
    show Owned _ _ _ (a :: (s.batch ++ _))
    rw [batch, hn]
    exact ho
  | runCancel id fs drift hr hn => exact timerInv_cancelInLoop (timerInv_tail h hr rfl) id
  | handleRead delay hn =>
    have ho := h.owned
    rw [batch, hn, List.nil_append] at ho
    obtain ⟨active, heq, hown⟩ := handleRead_eq ho (fun a x hx => (h.mortal.live a x hx).1) delay
    rw [heq]
    refine ⟨hown, h.mortal, rfl, ?_, h.aborted, h.dangling⟩
    intro k hk
    obtain rfl := Option.some.inj hk
    exact List.suffix_rfl
  | runTimer now expired e todo hh =>
    obtain ⟨x, hx⟩ := h.next_timer hh
    rw [deref_of hx]
    exact timerInv_runTimer h hh hx
  | reset now expired drift hh => exact timerInv_reset h hh drift
  | tick n => exact ⟨h.owned, h.mortal, h.calling, h.todo, h.aborted, h.dangling⟩

theorem consistent_of_inv (h : TimerInv s) : Consistent s where
  same a := by
    constructor
    · rintro ⟨e, he, rfl⟩
      obtain ⟨x, -, -, hm⟩ := h.owned.entry e he
      exact ⟨_, hm, rfl⟩
    · rintro ⟨i, hi, rfl⟩
      obtain ⟨x, -, -, hm⟩ := h.owned.listed i hi
      exact ⟨_, hm, rfl⟩
  keyed e he := by
    obtain ⟨x, hx, hw, -⟩ := h.owned.entry e he
    exact ⟨x, hx, hw⟩
  numbered i hi := by
    obtain ⟨x, hx, hs, -⟩ := h.owned.listed i hi
    exact ⟨x, hx, hs⟩
  batch a ha := by
    have hm : a ∈ s.batch ++ s.queued := List.mem_append_left _ ha
    exact ⟨(h.owned.apart a hm).1, (h.owned.apart a hm).2, fun i hi => h.owned.not_active hm hi⟩
  distinct := (List.nodup_append.mp h.owned.nodup).1
  asserted := h.aborted
  undeleted := h.dangling
  once := h.mortal.once
  held i hd := by
    rintro (hi | ⟨a, x, hx, rfl, -⟩)
    · obtain ⟨x, hx, hs, -⟩ := h.owned.listed i hi
      refine (h.mortal.live i.timer x hx).2.2 ?_
      rw [hs]
      exact hd
    · exact (h.mortal.live a x hx).2.2 hd
  run := h.mortal.order

theorem timerInv_init (clock : Int) : TimerInv (init clock) := by
  refine ⟨⟨rfl, ?_, ?_, ?_, List.nodup_nil, ?_⟩, ⟨?_, ?_, ?_, ?_⟩, rfl, ?_, rfl, rfl⟩ <;>
    simp [init, batch, queued]

theorem timerInv_run {clock : Int} {as : List Act}
    (hrun : Steps.run step (init clock) as = some t) : TimerInv t :=
  Steps.run_invariant (fun _ _ _ h hs => timerInv_stepped h (step_stepped hs)) (timerInv_init clock)
    hrun

/-- **The timer sets stay consistent** in every run. -/
theorem timers_consistent {clock : Int} {as : List Act}
    (hrun : Steps.run step (init clock) as = some t) : Consistent t :=
  consistent_of_inv (timerInv_run hrun)

/-- Two timers expire together, the second of them repeating; the first callback adds another
one, and the second cancels itself. -/
def cancelsItself : List Act :=
  [.addTimer true 8 50 0 false 0, .addTimer false 16 50 1000 true 0, .doPendingFunctors,
    .runFunctor 3, .tick 200, .handleRead 1, .runTimer, .addTimer true 24 60 5 true 0, .runTimer,
    .cancel true ⟨16, 2⟩, .reset 2]

theorem timers_consistent_cancelsItself : ∃ t, Steps.run step (init 10) cancelsItself = some t ∧
    t.timers.size = 1 ∧ .delete ⟨16, 2⟩ ∈ t.trace ∧ Consistent t := by
  have hobs : (Steps.run step (init 10) cancelsItself).any
      (fun t => decide (t.timers.size = 1 ∧ .delete ⟨16, 2⟩ ∈ t.trace)) = true := by decide
  obtain ⟨t, ht, hobs⟩ := (Option.any_eq_true _ _).mp hobs
  obtain ⟨h1, h2⟩ := of_decide_eq_true hobs
  exact ⟨t, ht, h1, h2, timers_consistent ht⟩

end

end TimerQueue

end SimpleNet
