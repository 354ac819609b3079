import SimpleNet.Timer.Sets

/-!
# Cancelled timers

A cancel takes its timer out of the sets; during `handleRead` it also keeps a timer that has
run from being put back.  It misses a timer that is in neither place: one of the batch whose
turn is still to come, and one whose `addTimerInLoop` is still queued when the cancel is a
direct call on the loop's thread (`cancelled_still_runs`).

`cancelled_stays_off`: where the direct calls keep away from these two, no callback starts
after a cancel of its timer.  Cancels of other threads come after the `addTimerInLoop` in the
queue of functors, and between two passes of `handleRead`.  A destructor of what a callback binds is
not to cancel timers: `delete` would run it where `reset` has only part of the batch in the sets.
-/

namespace SimpleNet

open Function (update)

namespace TimerQueue

/-- The timers of the batch whose callback is still to come. -/
def todo (s : TimerQueue) : List Nat :=
  match s.handling with
  | some h => h.todo.map Entry.timer
  | none => []

/-- Where a cancel finds the timer: a direct call comes neither before the `addTimerInLoop` nor
while the timer waits in the batch; other threads have the id from `addTimer`. -/
def CancelOk (s : TimerQueue) : Act → Prop
  | .cancel true id => ∀ t ∈ s.heap id.timer, t.sequence = id.sequence →
      id.timer ∉ s.queued ∧ id.timer ∉ s.todo
  | .cancel false id => id.sequence ≤ s.numCreated
  | _ => True

instance (s : TimerQueue) : (c : Act) → Decidable (CancelOk s c)
  | .cancel true id => inferInstanceAs (Decidable (∀ t ∈ s.heap id.timer, _))
  | .cancel false id => inferInstanceAs (Decidable (id.sequence ≤ s.numCreated))
  | .addTimer _ _ _ _ _ _ | .doPendingFunctors | .runFunctor _ | .handleRead _ | .runTimer
  | .reset _ | .tick _ => .isTrue trivial

/-- The timer has been cancelled, by the id that `addTimer` returned. -/
def Cancelled (s : TimerQueue) (i : TimerId) : Prop :=
  [.addTimer i, .cancelInLoop i].Sublist s.trace

/-- The timer has run in this batch, and `reset` will delete it. -/
def Done (s : TimerQueue) (i : TimerId) : Prop :=
  i.timer ∈ s.batch ∧ i.timer ∉ s.todo ∧ i ∈ s.cancelingTimers

/-- The timer is in memory. -/
def Live (s : TimerQueue) (i : TimerId) : Prop :=
  ∃ t, s.heap i.timer = some t ∧ t.sequence = i.sequence

/-- No callback has started after a cancel of its timer. -/
def StaysOff (s : TimerQueue) : Prop :=
  ∀ i, ¬ [.addTimer i, .cancelInLoop i, .run i].Sublist s.trace

structure CancelInv (s : TimerQueue) : Prop where
  added : ∀ i, .addTimer i ∈ s.trace → i.sequence ≤ s.numCreated
  waiting : ∀ i, .cancelInLoop i ∈ s.functors.queue → i.sequence ≤ s.numCreated
  /-- what is added behind a cancel is newer than what it cancels -/
  fifo : s.functors.queue.Pairwise fun f g => ∀ i a t, f = .cancelInLoop i → g = .addTimerInLoop a →
    s.heap a = some t → i.sequence < t.sequence
  settled : ∀ i, s.Cancelled i → s.Live i → s.Done i
  stopped : s.StaysOff

section

variable {s t : TimerQueue} {a : Nat} {id : TimerId}

/-- From `s` to `t` timers were deleted or changed, and put into the sets or out of them. -/
structure Quiet (s t : TimerQueue) : Prop where
  functors : t.functors = s.functors
  numCreated : t.numCreated = s.numCreated
  heap : ∀ a x, t.heap a = some x → ∃ y, s.heap a = some y ∧ y.sequence = x.sequence
  trace : ∃ es, t.trace = s.trace ++ es ∧ ∀ e ∈ es, ∃ i, e = .delete i

theorem Quiet.cancelled (h : Quiet s t) {i : TimerId} (hc : t.Cancelled i) : s.Cancelled i := by
  obtain ⟨es, ht, hes⟩ := h.trace
  rw [Cancelled, ht] at hc
  apply List.sublist_of_concat_sublist_append [TimerEvent.addTimer i] hc
  intro hm
  obtain ⟨j, hj⟩ := hes _ hm
  cases hj

theorem Quiet.live (h : Quiet s t) {i : TimerId} (hl : t.Live i) : s.Live i := by
  obtain ⟨x, hx, hs⟩ := hl
  obtain ⟨y, hy, hys⟩ := h.heap _ x hx
  exact ⟨y, hy, hys.trans hs⟩

theorem Quiet.trans {u : TimerQueue} (h : Quiet s t) (g : Quiet t u) : Quiet s u where
  functors := g.functors.trans h.functors
  numCreated := g.numCreated.trans h.numCreated
  heap a x hx := by
    obtain ⟨y, hy, hyx⟩ := g.heap a x hx
    obtain ⟨z, hz, hzy⟩ := h.heap a y hy
    exact ⟨z, hz, hzy.trans hyx⟩
  trace := by
    obtain ⟨ds, ht, hds⟩ := h.trace
    obtain ⟨es, hu, hes⟩ := g.trace
    refine ⟨ds ++ es, by rw [hu, ht, List.append_assoc], ?_⟩
    intro e he
    exact (List.mem_append.mp he).elim (hds e) (hes e)

theorem CancelInv.quiet (h : CancelInv s) (hq : Quiet s t)
    (hd : ∀ i, s.Cancelled i → t.Live i → t.Done i) : CancelInv t where
  added i hi := by
    obtain ⟨es, ht, hes⟩ := hq.trace
    rw [ht] at hi
    rw [hq.numCreated]
    rcases List.mem_append.mp hi with hi | hi
    · exact h.added i hi
    · obtain ⟨j, hj⟩ := hes _ hi
      cases hj
  waiting i hi := by
    rw [hq.functors] at hi
    rw [hq.numCreated]
    exact h.waiting i hi
  fifo := by
    rw [hq.functors]
    refine h.fifo.imp fun hfg i a x hf hg hx => ?_
    obtain ⟨y, hy, hys⟩ := hq.heap a x hx
    rw [← hys]
    exact hfg i a y hf hg hy
  settled i hc hl := hd i (hq.cancelled hc) hl
  stopped i hi := by
    obtain ⟨es, ht, hes⟩ := hq.trace
    rw [ht] at hi
    refine h.stopped i (List.sublist_of_concat_sublist_append
      [TimerEvent.addTimer i, TimerEvent.cancelInLoop i] hi ?_)
    intro hm
    obtain ⟨j, hj⟩ := hes _ hm
    cases hj

theorem CancelInv.new (h : CancelInv s) (when : Int) (interval : Fin (2 ^ 63))
    (repeat_ : Bool) : CancelInv (s.new a when interval repeat_) where
  added i hi := by
    show i.sequence ≤ s.numCreated + 1
    rcases List.mem_append.mp hi with hi | hi
    · exact (h.added i hi).trans (Nat.le_succ _)
    · rw [TimerEvent.addTimer.inj (List.mem_singleton.mp hi)]
  waiting i hi := (h.waiting i hi).trans (Nat.le_succ _)
  fifo := by
    refine h.fifo.imp_of_mem fun {f g} hf _ hfg i b x hi hb hx => ?_
    by_cases hba : b = a
    · subst hba
      rw [new_heap_self] at hx
      obtain rfl := Option.some.inj hx
      exact Nat.lt_succ_of_le (h.waiting i (hi ▸ hf))
    · rw [new_heap_of_ne hba] at hx
      exact hfg i b x hi hb hx
  settled i hc hl := by
    have hc' : s.Cancelled i :=
      (List.pair_sublist_concat.mp hc).resolve_right fun h' => by cases h'.2
    obtain ⟨x, hx, hs⟩ := hl
    by_cases hia : i.timer = a
    · have hi := h.added i (hc'.subset List.mem_cons_self)
      rw [hia, new_heap_self] at hx
      obtain rfl := Option.some.inj hx
      change s.numCreated + 1 = _ at hs
      omega
    · rw [new_heap_of_ne hia] at hx
      exact h.settled i hc' ⟨x, hx, hs⟩
  stopped i hi := by
    rcases List.triple_sublist_concat.mp hi with hi | ⟨-, hi⟩
    · exact h.stopped i hi
    · cases hi

/-- The end of `cancelInLoop`. -/
theorem CancelInv.cancelled (h : CancelInv s) (hd : s.Live id → s.Done id) :
    CancelInv (s.emit (.cancelInLoop id)) where
  added i hi := by
    rcases List.mem_append.mp hi with hi | hi
    · exact h.added i hi
    · cases List.mem_singleton.mp hi
  waiting := h.waiting
  fifo := h.fifo
  settled i hc hl := by
    rcases List.pair_sublist_concat.mp hc with hc | ⟨-, hi⟩
    · exact h.settled i hc hl
    · obtain rfl := TimerEvent.cancelInLoop.inj hi
      exact hd hl
  stopped i hi := by
    rcases List.triple_sublist_concat.mp hi with hi | ⟨-, hi⟩
    · exact h.stopped i hi
    · cases hi

theorem quiet_put (s : TimerQueue) (a : Nat) (x : Timer) : Quiet s (s.put a x) :=
  ⟨rfl, rfl, fun _ y hy => ⟨y, hy, rfl⟩, [], (List.append_nil _).symm, by simp⟩

theorem quiet_take (s : TimerQueue) (id : TimerId) (x : Timer) : Quiet s (s.take id x) :=
  ⟨rfl, rfl, fun _ y hy => ⟨y, hy, rfl⟩, [], (List.append_nil _).symm, by simp⟩

theorem quiet_drop (s : TimerQueue) (a : Nat) (x : Timer) : Quiet s (s.drop a x) := by
  refine ⟨rfl, rfl, fun b y hy => ⟨y, ?_, rfl⟩, [.delete ⟨a, x.sequence⟩], rfl, by simp⟩
  have hba : b ≠ a := by
    rintro rfl
    rw [drop_heap_self] at hy
    cases hy
  rwa [drop_heap_of_ne hba] at hy

theorem cancelInv_addTimerInLoop {x : Timer} {away : List Nat} (h : CancelInv s)
    (ho : Owned s.timers s.activeTimers s.heap (a :: away)) (hx : s.heap a = some x) (drift : Nat) :
    CancelInv (s.addTimerInLoop drift a) := by
  have hput : CancelInv (s.put a x) := h.quiet (quiet_put s a x) h.settled
  rw [addTimerInLoop_eq ho hx]
  split
  · exact ⟨hput.added, hput.waiting, hput.fifo, hput.settled, hput.stopped⟩
  · exact hput

/-- A cancel of a timer that is neither queued nor to come in the batch. -/
theorem cancelInv_cancelInLoop (h : TimerInv s) (hc : CancelInv s)
    (hok : s.Live id → id.timer ∉ s.queued ∧ id.timer ∉ s.todo) : CancelInv (s.cancelInLoop id) := by
  by_cases hi : id ∈ s.activeTimers
  · obtain ⟨x, hx, -, -⟩ := h.owned.listed id hi
    rw [cancelInLoop_active h.owned hi hx]
    have hquiet : Quiet s ((s.take id x).drop id.timer x) :=
      (quiet_take s id x).trans (quiet_drop (s.take id x) id.timer x)
    apply CancelInv.cancelled (hc.quiet hquiet fun i hci hl => hc.settled i hci (hquiet.live hl))
    rintro ⟨y, hy, -⟩
    rw [drop_heap_self] at hy
    cases hy
  · rw [cancelInLoop_of_not_mem h.owned.size hi]
    have hmono : ∀ i, s.Done i → Done { s with
        cancelingTimers := if s.callingExpiredTimers then (s.cancelingTimers.insert id).1
          else s.cancelingTimers } i := by
      rintro i ⟨hb, ht, hm⟩
      refine ⟨hb, ht, ?_⟩
      split
      · exact SortedSet.mem_insert.mpr (Or.inr hm)
      · exact hm
    refine CancelInv.cancelled
      ⟨hc.added, hc.waiting, hc.fifo, fun i hci hl => hmono i (hc.settled i hci hl), hc.stopped⟩ ?_
    rintro ⟨x, hx, hs⟩
    obtain ⟨hq, ht⟩ := hok ⟨x, hx, hs⟩
    rcases h.owned.home _ x hx with ⟨e, he, heid⟩ | hm
    · -- it would be active
      obtain ⟨y, hy, -, hact⟩ := h.owned.entry e he
      rw [heid] at hy hact
      obtain rfl := Option.some.inj (hx.symm.trans hy)
      rw [hs] at hact
      exact absurd hact hi
    · have hb : id.timer ∈ s.batch := (List.mem_append.mp hm).resolve_right hq
      have hcall : s.callingExpiredTimers = true := by
        rw [h.calling]
        cases hh : s.handling with
        | none =>
          rw [batch, hh] at hb
          cases hb
        | some k => rfl
      exact ⟨hb, ht, by simp [hcall]⟩

theorem quiet_settle (s : TimerQueue) (now : Int) {x : Timer} (hx : s.heap a = some x) :
    Quiet s (s.settle now a x) := by
  unfold settle
  split
  · refine ⟨rfl, rfl, ?_, [], (List.append_nil _).symm, by simp⟩
    intro b y hy
    change update s.heap a (some (x.restart now)) b = some y at hy
    by_cases hba : b = a
    · subst hba
      rw [Function.update_self] at hy
      obtain rfl := Option.some.inj hy
      exact ⟨x, hx, (x.restart_sequence now).symm⟩
    · rw [Function.update_of_ne hba] at hy
      exact ⟨y, hy, rfl⟩
  · exact quiet_drop s a x

/-- `reset` deletes the cancelled timers of the batch. -/
theorem cancelInv_reset {now : Int} {expired : List Entry} (h : TimerInv s) (hc : CancelInv s)
    (hh : s.handling = some ⟨now, expired, []⟩) (drift : Nat) :
    CancelInv { { s with callingExpiredTimers := false }.reset drift expired now with
      handling := none } := by
  have hb : s.batch = expired.map Entry.timer := by rw [batch, hh]
  obtain ⟨hfold, hq, hr, hl⟩ := foldl_resetOne now
    (I := fun rest u => Quiet s u ∧ u.cancelingTimers = s.cancelingTimers ∧
      ∀ i, s.Cancelled i → u.Live i → i.timer ∈ rest.map Entry.timer ∧ i ∈ s.cancelingTimers)
    (fun e rest u x _ hx hu => by
      obtain ⟨hq, hr, hl⟩ := hu
      have hqs := quiet_settle u now hx
      refine ⟨hq.trans hqs, ?_, ?_⟩
      · rw [← hr]
        unfold settle
        split <;> rfl
      · intro i hi hli
        obtain ⟨hm, hcan⟩ := hl i hi (hqs.live hli)
        refine ⟨(List.mem_cons.mp hm).resolve_left ?_, hcan⟩
        intro hie
        obtain ⟨y, hy, hys⟩ := hli
        unfold settle at hy
        split at hy
        · next hre =>
          -- a cancelled timer is not restarted
          obtain ⟨z, hz, hzs⟩ := hqs.live ⟨y, by unfold settle; rwa [if_pos hre], hys⟩
          rw [hie, hx] at hz
          obtain rfl := Option.some.inj hz
          refine hre.2 ?_
          rw [hr, hzs, ← hie]
          exact hcan
        · rw [hie, drop_heap_self] at hy
          cases hy)
    (s := { s with callingExpiredTimers := false }) (h.owned_batch hh)
    ⟨⟨rfl, rfl, fun _ y hy => ⟨y, hy, rfl⟩, [], (List.append_nil _).symm, by simp⟩, rfl,
      fun i hi hli => by
        obtain ⟨hm, -, hcan⟩ := hc.settled i hi hli
        exact ⟨hb ▸ hm, hcan⟩⟩
  have hcases := reset_eq_or rfl hfold drift
  generalize List.foldl _ _ _ = u at hq hr hl hcases
  have hinv : CancelInv { u with handling := none } :=
    hc.quiet ⟨hq.functors, hq.numCreated, hq.heap, hq.trace⟩ fun i hi hli => absurd (hl i hi hli).1
      (by simp)
  obtain he | ⟨e, he⟩ := hcases
  · rw [he]
    exact hinv
  · rw [he]
    exact ⟨hinv.added, hinv.waiting, hinv.fifo, hinv.settled, hinv.stopped⟩

/-- Between two passes of `handleRead` no cancelled timer is in memory. -/
theorem CancelInv.not_live (h : CancelInv s) (hn : s.handling = none) {i : TimerId}
    (hc : s.Cancelled i) : ¬ s.Live i := by
  intro hl
  have hb := (h.settled i hc hl).1
  rw [batch, hn] at hb
  cases hb

theorem cancelInv_runTimer {now : Int} {expired todo : List Entry} {e : Entry} {x : Timer}
    (hc : CancelInv s) (hh : s.handling = some ⟨now, expired, e :: todo⟩)
    (hx : s.heap e.timer = some x) :
    CancelInv { s.emit (.run ⟨e.timer, x.sequence⟩) with handling := some ⟨now, expired, todo⟩ } where
  added i hi := by
    rcases List.mem_append.mp hi with hi | hi
    · exact hc.added i hi
    · cases List.mem_singleton.mp hi
  waiting := hc.waiting
  fifo := hc.fifo
  settled i hci hl := by
    rcases List.pair_sublist_concat.mp hci with hci | ⟨-, hi⟩
    · obtain ⟨hb, ht, hm⟩ := hc.settled i hci hl
      rw [batch, hh] at hb
      rw [TimerQueue.todo, hh] at ht
      exact ⟨hb, fun hm' => ht (List.mem_cons_of_mem _ hm'), hm⟩
    · cases hi
  stopped i hi := by
    rcases List.triple_sublist_concat.mp hi with hi | ⟨hci, hi⟩
    · exact hc.stopped i hi
    · -- a cancelled timer has had its turn
      obtain rfl := TimerEvent.run.inj hi
      have ht := (hc.settled _ hci ⟨x, hx, rfl⟩).2.1
      rw [TimerQueue.todo, hh] at ht
      exact ht List.mem_cons_self

/-- A functor is taken off the queue. -/
theorem CancelInv.tail (h : CancelInv s) {f : TimerTask} {fs : List TimerTask}
    (hr : s.functors.rest = f :: fs) : CancelInv { s with functors := s.functors.tail } := by
  have hf := h.fifo
  rw [Batched.queue_of_rest hr] at hf
  exact ⟨h.added, fun i hi => h.waiting i (Batched.mem_queue_of_tail hi), hf.tail, h.settled,
    h.stopped⟩

theorem mem_queued : a ∈ s.queued ↔ .addTimerInLoop a ∈ s.functors.queue := by
  rw [queued, List.mem_filterMap]
  constructor
  · rintro ⟨f, hf, hfa⟩
    cases f with
    | addTimerInLoop b =>
      obtain rfl := Option.some.inj hfa
      exact hf
    | cancelInLoop i => cases hfa
  · intro h
    exact ⟨_, h, rfl⟩

theorem cancelInv_queueAdd (h : CancelInv s) (when : Int) (interval : Fin (2 ^ 63)) (repeat_ : Bool) :
    CancelInv { s.new a when interval repeat_ with
      functors := s.functors.push (.addTimerInLoop a) } := by
  have hnew := h.new (a := a) when interval repeat_
  refine ⟨hnew.added, fun i hi => hnew.waiting i ?_, ?_, hnew.settled, hnew.stopped⟩
  · rw [Batched.queue_push] at hi
    exact (List.mem_append.mp hi).resolve_right (by simp)
  · rw [Batched.queue_push, List.pairwise_append]
    refine ⟨hnew.fifo, List.pairwise_singleton _ _, ?_⟩
    intro f hf g hg i b x hi hb hx
    rw [List.mem_singleton.mp hg] at hb
    obtain rfl := TimerTask.addTimerInLoop.inj hb
    obtain rfl := Option.some.inj (new_heap_self.symm.trans hx)
    exact Nat.lt_succ_of_le (h.waiting i (hi ▸ hf))

theorem cancelInv_queueCancel (h : CancelInv s) (hid : id.sequence ≤ s.numCreated) :
    CancelInv { s with functors := s.functors.push (.cancelInLoop id) } := by
  refine ⟨h.added, ?_, ?_, h.settled, h.stopped⟩
  · intro i hi
    rw [Batched.queue_push] at hi
    rcases List.mem_append.mp hi with hi | hi
    · exact h.waiting i hi
    · rw [TimerTask.cancelInLoop.inj (List.mem_singleton.mp hi)]
      exact hid
  · rw [Batched.queue_push, List.pairwise_append]
    refine ⟨h.fifo, List.pairwise_singleton _ _, ?_⟩
    intro f _ g hg i b x _ hb
    rw [List.mem_singleton.mp hg] at hb
    cases hb

theorem cancelInv_stepped {c : Act} (h : TimerInv s) (hc : CancelInv s) (hok : CancelOk s c)
    (hst : Stepped s c t) : CancelInv t := by
  cases hst with
  | addTimer a when interval repeat_ drift hfree hmax =>
    exact cancelInv_addTimerInLoop (hc.new when interval repeat_) (h.owned.new hfree) new_heap_self drift
  | queueAdd a when interval repeat_ drift hfree hmax =>
    exact cancelInv_queueAdd hc when interval repeat_
  | cancel id => exact cancelInv_cancelInLoop h hc fun ⟨x, hx, hs⟩ => hok x hx hs
  | queueCancel id => exact cancelInv_queueCancel hc hok
  | doPendingFunctors hr =>
    have hq := Batched.queue_swap hr
    exact ⟨hc.added, fun i hi => hc.waiting i (hq ▸ hi), (by rw [hq]; exact hc.fifo), hc.settled,
      hc.stopped⟩
  | runAdd a fs drift hr hn =>
    obtain ⟨ho, x, hx⟩ := h.owned_next hn hr
    exact cancelInv_addTimerInLoop (s := { s with functors := s.functors.tail }) (hc.tail hr) ho hx drift
  | runCancel id fs drift hr hn =>
    apply cancelInv_cancelInLoop (timerInv_tail h hr rfl) (hc.tail hr)
    intro hlive
    obtain ⟨x, hx, hs⟩ := hlive
    constructor
    · -- what is added behind it is newer
      intro hm
      have hf := hc.fifo
      rw [Batched.queue_of_rest hr] at hf
      have hlt := (List.pairwise_cons.mp hf).1 _ (mem_queued.mp hm) id id.timer x rfl rfl hx
      omega
    · rw [TimerQueue.todo, hn]
      exact List.not_mem_nil
  | handleRead delay hn =>
    obtain ⟨active, heq, -⟩ := handleRead_eq h.owned (fun a x hx => (h.mortal.live a x hx).1) delay
    rw [heq]
    exact ⟨hc.added, hc.waiting, hc.fifo, fun i hi hl => absurd hl (hc.not_live hn hi), hc.stopped⟩
  | runTimer now expired e todo hh =>
    obtain ⟨x, hx⟩ := h.next_timer hh
    rw [deref_of hx]
    exact cancelInv_runTimer hc hh hx
  | reset now expired drift hh => exact cancelInv_reset h hc hh drift
  | tick n => exact ⟨hc.added, hc.waiting, hc.fifo, hc.settled, hc.stopped⟩

/-- **A cancelled timer stays off** in every run whose steps are `CancelOk`. -/
theorem cancelled_stays_off {clock : Int} {as : List Act}
    (hrun : Steps.run (Steps.guarded CancelOk step) (init clock) as = some t) : t.StaysOff := by
  have h : TimerInv t ∧ CancelInv t := by
    refine Steps.run_invariant (I := fun s => TimerInv s ∧ CancelInv s) ?_ ?_ hrun
    · rintro s c u ⟨h, hc⟩ hs
      obtain ⟨hok, hs⟩ := Steps.guarded_eq_some.mp hs
      exact ⟨timerInv_stepped h (step_stepped hs), cancelInv_stepped h hc hok (step_stepped hs)⟩
    · refine ⟨timerInv_init clock, ?_, ?_, List.Pairwise.nil, ?_, ?_⟩ <;>
        simp [init, Cancelled, StaysOff]
  exact h.2.stopped

/-- A repeating timer cancels itself in its second turn; another thread cancels the other one. -/
def cancelsBoth : List Act :=
  [.addTimer true 8 50 100 true 0, .addTimer false 16 900 0 false 0, .cancel false ⟨16, 2⟩, .tick 200,
    .handleRead 0, .runTimer, .reset 0, .doPendingFunctors, .runFunctor 0, .runFunctor 0, .tick 1000,
    .handleRead 0, .runTimer, .cancel true ⟨8, 1⟩, .reset 0, .tick 1000, .handleRead 0, .reset 0]

theorem cancelled_stays_off_both : ∃ t, Steps.run (Steps.guarded CancelOk step) (init 10)
    cancelsBoth = some t ∧ t.Cancelled ⟨8, 1⟩ ∧ t.Cancelled ⟨16, 2⟩ ∧ t.StaysOff := by
  have hobs : (Steps.run (Steps.guarded CancelOk step) (init 10) cancelsBoth).any
      (fun t => decide ([.addTimer ⟨8, 1⟩, .cancelInLoop ⟨8, 1⟩].Sublist t.trace ∧
        [.addTimer ⟨16, 2⟩, .cancelInLoop ⟨16, 2⟩].Sublist t.trace)) = true := by decide
  obtain ⟨t, ht, hobs⟩ := (Option.any_eq_true _ _).mp hobs
  obtain ⟨h1, h2⟩ := of_decide_eq_true hobs
  exact ⟨t, ht, h1, h2, cancelled_stays_off ht⟩

/-- The first of two timers of a batch cancels the second. -/
def cancelInBatch : List Act :=
  [.addTimer true 8 50 0 false 0, .addTimer true 16 60 0 false 0, .tick 200, .handleRead 0, .runTimer,
    .cancel true ⟨16, 2⟩, .runTimer]

/-- A timer of another thread is cancelled on the loop's thread before it is in the sets. -/
def cancelWhileQueued : List Act :=
  [.addTimer false 8 50 0 false 0, .cancel true ⟨8, 1⟩, .doPendingFunctors, .runFunctor 0, .tick 200,
    .handleRead 0, .runTimer]

/-- A cancelled timer of the batch still runs, and so does one whose `addTimerInLoop` waits. -/
theorem cancelled_still_runs :
    (∃ t, Steps.run step (init 10) cancelInBatch = some t ∧ ¬ t.StaysOff) ∧
      ∃ t, Steps.run step (init 10) cancelWhileQueued = some t ∧ ¬ t.StaysOff := by
  have hobs1 : (Steps.run step (init 10) cancelInBatch).any (fun t => decide
      ([.addTimer ⟨16, 2⟩, .cancelInLoop ⟨16, 2⟩, .run ⟨16, 2⟩].Sublist t.trace)) = true := by decide
  have hobs2 : (Steps.run step (init 10) cancelWhileQueued).any (fun t => decide
      ([.addTimer ⟨8, 1⟩, .cancelInLoop ⟨8, 1⟩, .run ⟨8, 1⟩].Sublist t.trace)) = true := by decide
  obtain ⟨t, ht, hobs1⟩ := (Option.any_eq_true _ _).mp hobs1
  obtain ⟨u, hu, hobs2⟩ := (Option.any_eq_true _ _).mp hobs2
  exact ⟨⟨t, ht, fun h => h _ (of_decide_eq_true hobs1)⟩, u, hu, fun h => h _ (of_decide_eq_true hobs2)⟩

end

end TimerQueue

end SimpleNet
