import SimpleNet.Client.Sockets
import SimpleNet.Lib.Refine

/-!
# Trying again

What a connector does until it is connected.  `keeps_trying`: as long as `connect_` is set, the
loop's thread is at it, an attempt waits in the poller, a call of `startInLoop` is on its way, a
retry timer is set, or the last descriptor has been handed on.  Where `connect()` gives up, at an
error that its `switch` takes for a fault of the program, nothing of this holds.

`backoff_doubles`: between two calls of `restart()` the delays of the retries double, up to half a
minute.
-/

namespace SimpleNet

open Function (update)

namespace Connector

/-! ### An attempt is under way -/

inductive Pursues (s : Connector) : Prop
  /-- the loop's thread is at it -/
  | busy (hpc : s.pc ≠ .idle)
  /-- the channel of an attempt is in the poller -/
  | attempt (fd : Nat) (hs : s.state = .kConnecting) (hc : s.channel = some ⟨fd, true⟩)
  | timer (ms : Nat) (hms : ms ∈ s.timers) (hle : ms ≤ kMaxRetryDelayMs)
  | functor (hf : .startInLoop ∈ s.functors.queue)
  /-- `start()` on another thread has not come to its `queueInLoop` -/
  | thread (k : Nat) (hk : s.threads k = some .startInLoop)
  /-- the last descriptor has been handed on -/
  | done (fd : Nat) (hs : s.state = .kConnected) (hl : s.lastSocket = some fd)
      (hm : .newConnectionCallback fd ∈ s.trace)

/-- The errors at which `connect()` gives up do not occur. -/
def Hopeful (s : Connector) : Act → Prop
  | .resume savedErrno => s.pc = .calling → savedErrno.case ≠ .close
  | _ => True

instance (s : Connector) : (a : Act) → Decidable (Hopeful s a)
  | .resume _ => inferInstanceAs (Decidable (_ → _))
  | .start | .stop _ | .restart | .startFrom _ | .stopFrom _ _ | .queueFrom _ | .handleEvent _ _ _ _
  | .timer _ | .doPendingFunctors | .runFunctor => .isTrue trivial

/-- What an attempt has, from `connect()` to its end. -/
structure Course (s : Connector) : Prop where
  attempt : s.state = .kConnecting → ∃ fd, s.channel = some ⟨fd, true⟩ ∧ s.lastSocket = some fd
  connected : ∀ fd, s.pc = .testing fd ∨ s.pc = .handing fd →
    s.state = .kConnected ∧ s.lastSocket = some fd
  resets : s.functors.queue.count .resetChannel = s.stale
  threads : ∀ k, s.threads k ≠ some .resetChannel
  delay : s.retryDelayMs ≤ kMaxRetryDelayMs
  timers : ∀ ms ∈ s.timers, ms ≤ kMaxRetryDelayMs

/-- The invariant, unless an assertion has failed. -/
def OnCourse (s : Connector) : Prop :=
  s.failed = none → Course s ∧ (s.connect = true → Pursues s)

section

variable {s t : Connector} {fd n : Nat}

theorem onCourse_startInLoop (h : Course s) : OnCourse s.startInLoop := by
  intro hf
  unfold startInLoop at hf ⊢
  split at hf
  · next hs =>
    rw [if_pos hs]
    refine ⟨⟨h.attempt, ?_, h.resets, h.threads, h.delay, h.timers⟩, fun _ => .busy (by simp)⟩
    intro fd hpc
    simp at hpc
  · cases hf

/-- A step that takes nothing away of what is under way. -/
theorem Pursues.mono (h : Pursues s) (hpc : t.pc = s.pc) (hs : t.state = s.state)
    (hc : t.channel = s.channel) (ht : s.timers ⊆ t.timers)
    (hq : .startInLoop ∈ s.functors.queue → .startInLoop ∈ t.functors.queue ∨
      ∃ k, t.threads k = some .startInLoop)
    (hk : ∀ k, s.threads k = some .startInLoop → .startInLoop ∈ t.functors.queue ∨
      ∃ j, t.threads j = some .startInLoop)
    (hl : t.lastSocket = s.lastSocket) (hm : s.trace ⊆ t.trace) : Pursues t := by
  have hany : (.startInLoop ∈ t.functors.queue ∨ ∃ k, t.threads k = some .startInLoop) →
      Pursues t := fun h => h.elim .functor fun ⟨k, hk⟩ => .thread k hk
  cases h with
  | busy h => exact .busy (hpc ▸ h)
  | attempt fd h1 h2 => exact .attempt fd (hs ▸ h1) (hc ▸ h2)
  | timer ms h1 h2 => exact .timer ms (ht h1) h2
  | functor h => exact hany (hq h)
  | thread k h => exact hany (hk k h)
  | done fd h1 h2 h3 => exact .done fd (hs ▸ h1) (hl ▸ h2) (hm h3)

/-! ### The end of an attempt -/

/-- The channel is taken out of the poller. -/
def detach (s : Connector) (x : ConnectorState) (fd : Nat) : Connector :=
  { s with state := x, channel := some ⟨fd, false⟩ }.queueInLoop .resetChannel

theorem removeAndResetChannel_eq (h : Course s) (hs : s.state = .kConnecting) :
    ∃ fd, s.lastSocket = some fd ∧ ∀ (x : ConnectorState) (f : Connector → Nat → Connector),
      { s with state := x }.removeAndResetChannel f = f (s.detach x fd) fd := by
  obtain ⟨fd, hc, hl⟩ := h.attempt hs
  refine ⟨fd, hl, fun x f => ?_⟩
  rw [removeAndResetChannel_some (show { s with state := x }.channel = some ⟨fd, true⟩ from hc)]
  rfl

theorem resets_detach (h : Course s) (hs : s.state = .kConnecting) (x : ConnectorState) :
    (s.detach x fd).functors.queue.count .resetChannel = (s.detach x fd).stale := by
  obtain ⟨d, hc, -⟩ := h.attempt hs
  have hstale : s.stale = 0 := by rw [stale, hc]; rfl
  show (s.functors.push .resetChannel).queue.count _ = 1
  rw [Batched.count_push, h.resets, hstale]
  rfl

theorem onCourse_detach_retry (h : Course s) (hs : s.state = .kConnecting) (x : ConnectorState)
    (fd : Nat) : OnCourse ((s.detach x fd).retry fd) := by
  intro _
  refine ⟨⟨fun h => ?_, fun d hpc => ?_, resets_detach h hs x, h.threads, h.delay, h.timers⟩,
    fun _ => .busy (by simp [retry])⟩
  · cases h
  · simp [retry] at hpc

theorem onCourse_removed_retry (h : Course s) (hs : s.state = .kConnecting) (x : ConnectorState) :
    OnCourse ({ s with state := x }.removeAndResetChannel retry) := by
  obtain ⟨fd, -, heq⟩ := removeAndResetChannel_eq h hs
  rw [heq x]
  exact onCourse_detach_retry h hs x fd

theorem onCourse_handleError (h : Course s) (hp : s.connect = true → Pursues s) :
    OnCourse s.handleError := by
  unfold handleError
  split
  · next hs => exact onCourse_removed_retry h hs s.state
  · exact fun _ => ⟨h, hp⟩

theorem onCourse_handleWrite (h : Course s) (hp : s.connect = true → Pursues s)
    (err selfConnect : Bool) : OnCourse (s.handleWrite err selfConnect) := by
  unfold handleWrite
  split
  · next hs =>
    obtain ⟨fd, hl, heq⟩ := removeAndResetChannel_eq h hs
    have heq' := heq s.state
    rw [heq']
    split
    · exact onCourse_detach_retry h hs s.state fd
    split
    · exact onCourse_detach_retry h hs s.state fd
    refine fun _ => ⟨⟨fun h => ?_, fun d hpc => ⟨rfl, ?_⟩, resets_detach h hs s.state, h.threads,
      h.delay, h.timers⟩, fun _ => .busy (by simp)⟩
    · cases h
    · obtain rfl : fd = d := by simpa using hpc
      exact hl
  · split
    · exact fun _ => ⟨h, hp⟩
    · exact fun hf => by cases hf

/-- After `handleError` has started a retry, `handleWrite` does nothing. -/
theorem handleWrite_handleError (h : Course s) (hs : s.state = .kConnecting)
    (err selfConnect : Bool) : s.handleError.handleWrite err selfConnect = s.handleError := by
  obtain ⟨fd, -, heq⟩ := removeAndResetChannel_eq h hs
  rw [handleError, if_pos hs, show s.removeAndResetChannel retry = _ from heq s.state retry]
  rfl

theorem onCourse_handleEvent (h : Course s) (hp : s.connect = true → Pursues s)
    (pollErr pollOut err selfConnect : Bool) :
    OnCourse (s.handleEvent pollErr pollOut err selfConnect) := by
  unfold handleEvent
  cases pollErr <;> cases pollOut
  · exact fun _ => ⟨h, hp⟩
  · exact onCourse_handleWrite h hp err selfConnect
  · exact onCourse_handleError h hp
  · show OnCourse (s.handleError.handleWrite err selfConnect)
    by_cases hs : s.state = .kConnecting
    · rw [handleWrite_handleError h hs]
      exact onCourse_handleError h hp
    · rw [handleError, if_neg hs]
      exact onCourse_handleWrite h hp err selfConnect

/-! ### `connect()` and what follows -/

theorem onCourse_connectSocket (h : Course s) {savedErrno : ConnectErrno}
    (hok : savedErrno.case ≠ .close) : OnCourse (s.connectSocket savedErrno) := by
  unfold connectSocket
  cases hcase : savedErrno.case with
  | connecting =>
    simp only [connecting]
    split
    · next hc =>
      have hnone : s.channel = none := Option.isNone_iff_eq_none.mp hc
      have hstale : s.stale = 0 := by rw [stale, hnone]; rfl
      refine fun _ => ⟨⟨fun _ => ⟨_, rfl, rfl⟩, fun d hpc => ?_, h.resets.trans hstale, h.threads,
        h.delay, h.timers⟩, fun _ => .attempt _ rfl rfl⟩
      simp at hpc
    · exact fun hf => by cases hf
  | retry =>
    refine fun _ => ⟨⟨fun h => ?_, fun d hpc => ?_, h.resets, h.threads, h.delay, h.timers⟩,
      fun _ => .busy (by simp [retry])⟩
    · cases h
    · simp [retry] at hpc
  | close => exact absurd hcase hok

theorem onCourse_runAfter (h : Course s) : OnCourse s.runAfter := by
  refine fun _ => ⟨⟨h.attempt, fun d hpc => ?_, h.resets, h.threads, Nat.min_le_right _ _, ?_⟩,
    fun _ => .timer s.retryDelayMs (by simp [runAfter]) h.delay⟩
  · simp [runAfter] at hpc
  · intro ms hms
    rcases List.mem_append.mp hms with hms | hms
    · exact h.timers ms hms
    · exact List.mem_singleton.mp hms ▸ h.delay

/-- The thread of the loop goes on, or stops because `connect_` is not set. -/
theorem onCourse_goes (h : Course s) {x : ConnectorPc} (hx : ∀ fd, x ≠ .testing fd ∧ x ≠ .handing fd)
    (hidle : x ≠ .idle) : OnCourse { s with pc := if s.connect then x else .idle } := by
  refine fun _ => ⟨⟨h.attempt, fun d hpc => ?_, h.resets, h.threads, h.delay, h.timers⟩, fun hc => ?_⟩
  · split at hpc
    · exact absurd hpc (not_or.mpr (hx d))
    · simp at hpc
  · exact .busy (by simpa [show s.connect = true from hc] using hidle)

theorem onCourse_resume (h : Course s) (hp : s.connect = true → Pursues s)
    {savedErrno : ConnectErrno} (hok : Hopeful s (.resume savedErrno)) :
    OnCourse (s.resume savedErrno) := by
  unfold resume
  split
  · exact fun _ => ⟨h, hp⟩
  · exact onCourse_goes h (by simp) (by simp)
  · next hpc => exact onCourse_connectSocket h (hok hpc)
  · exact onCourse_goes h (by simp) (by simp)
  · exact onCourse_runAfter h
  · next fd hpc =>
    obtain ⟨hs, hl⟩ := h.connected fd (Or.inl hpc)
    split
    · refine fun _ => ⟨⟨h.attempt, fun d hd => ⟨hs, ?_⟩, h.resets, h.threads, h.delay, h.timers⟩,
        fun _ => .busy (by simp)⟩
      obtain rfl : fd = d := by simpa using hd
      exact hl
    · next hc =>
      refine fun _ => ⟨⟨h.attempt, fun d hd => ?_, h.resets, h.threads, h.delay, h.timers⟩,
        fun hc' => absurd hc' hc⟩
      simp at hd
  · next fd hpc =>
    obtain ⟨hs, hl⟩ := h.connected fd (Or.inr hpc)
    refine fun _ => ⟨⟨h.attempt, fun d hd => ?_, h.resets, h.threads, h.delay, h.timers⟩,
      fun _ => .done fd hs hl (by simp)⟩
    simp at hd

/-! ### Functors -/

theorem onCourse_stopInLoop (h : Course s) (hp : s.connect = true → Pursues s) (n : Nat) :
    OnCourse (s.stopInLoop n) := by
  have he : Course (s.emit (.stopInLoop n)) :=
    ⟨h.attempt, h.connected, h.resets, h.threads, h.delay, h.timers⟩
  unfold stopInLoop
  simp only
  split
  · next hs => exact onCourse_removed_retry he hs .kDisconnected
  · refine fun _ => ⟨he, fun hc => (hp hc).mono rfl rfl rfl (fun _ h => h) Or.inl
      (fun k hk => Or.inr ⟨k, hk⟩) rfl (List.subset_append_left _ _)⟩

theorem Course.pop (h : Course s) {f : ConnectorTask} {fs : List ConnectorTask}
    (hr : s.functors.rest = f :: fs) (hf : f ≠ .resetChannel) : Course s.pop := by
  refine ⟨h.attempt, h.connected, ?_, h.threads, h.delay, h.timers⟩
  have hcount := h.resets
  rw [Batched.count_of_rest hr, if_neg hf] at hcount
  exact hcount

theorem Pursues.pop (h : Pursues s) {f : ConnectorTask} {fs : List ConnectorTask}
    (hr : s.functors.rest = f :: fs) (hf : f ≠ .startInLoop) : Pursues s.pop := by
  refine h.mono rfl rfl rfl (fun _ h => h) (fun hq => Or.inl ?_) (fun k hk => Or.inr ⟨k, hk⟩) rfl
    (fun _ h => h)
  rw [Batched.queue_of_rest hr] at hq
  exact (List.mem_cons.mp hq).resolve_left hf.symm

/-- No attempt waits for the end of the last channel. -/
theorem onCourse_resetChannel (h : Course s) (hp : s.connect = true → Pursues s)
    {fs : List ConnectorTask} (hr : s.functors.rest = .resetChannel :: fs) :
    OnCourse s.pop.resetChannel := by
  have hcount := h.resets
  rw [Batched.count_of_rest hr, if_pos rfl] at hcount
  have hs : s.state ≠ .kConnecting := by
    intro hs
    obtain ⟨fd, hc, -⟩ := h.attempt hs
    rw [stale, hc] at hcount
    exact absurd hcount (by simp)
  have hone : s.functors.tail.queue.count .resetChannel = 0 := by
    have hle : s.stale ≤ 1 := by
      unfold stale
      split <;> decide
    omega
  refine fun _ => ⟨⟨fun h => absurd h hs, h.connected, hone, h.threads, h.delay, h.timers⟩,
    fun hc => ?_⟩
  cases (hp hc).pop hr (by simp) with
  | busy h => exact .busy h
  | attempt fd h => exact absurd h hs
  | timer ms h1 h2 => exact .timer ms h1 h2
  | functor h => exact .functor h
  | thread k h => exact .thread k h
  | done fd h1 h2 h3 => exact .done fd h1 h2 (List.mem_append_left _ h3)

/-! ### Runs -/

theorem onCourse_stepped {a : Act} (h : Course s) (hp : s.connect = true → Pursues s)
    (hok : Hopeful s a) (hst : Stepped s a t) : OnCourse t := by
  cases hst with
  | start hpc =>
    exact onCourse_startInLoop ⟨h.attempt, h.connected, h.resets, h.threads, h.delay, h.timers⟩
  | stop n hpc =>
    refine fun _ => ⟨⟨h.attempt, h.connected, ?_, h.threads, h.delay, h.timers⟩, fun hc => by cases hc⟩
    show (s.functors.push (.stopInLoop n)).queue.count _ = s.stale
    rw [Batched.count_push, if_neg (by simp)]
    exact h.resets
  | restart hpc =>
    have hdelay : kInitRetryDelayMs ≤ kMaxRetryDelayMs := by decide
    refine onCourse_startInLoop ⟨nofun, fun d hd => ?_, h.resets, h.threads, hdelay, h.timers⟩
    simp [hpc] at hd
  | startFrom k =>
    refine fun _ => ⟨⟨h.attempt, h.connected, h.resets, fun j hj => ?_, h.delay, h.timers⟩,
      fun _ => .thread k (Function.update_self ..)⟩
    exact (update_eq_some hj).elim (by simp) (h.threads j)
  | stopFrom k n =>
    refine fun _ => ⟨⟨h.attempt, h.connected, h.resets, fun j hj => ?_, h.delay, h.timers⟩,
      fun hc => by cases hc⟩
    exact (update_eq_some hj).elim (by simp) (h.threads j)
  | queueFrom k f hf =>
    refine fun _ => ⟨⟨h.attempt, h.connected, ?_, fun j hj => ?_, h.delay, h.timers⟩,
      fun hc => (hp hc).mono rfl rfl rfl (fun _ h => h) (fun hq => Or.inl ?_) (fun j hj => ?_) rfl
        (fun _ h => h)⟩
    · show (s.functors.push f).queue.count _ = s.stale
      rw [Batched.count_push, if_neg fun he => h.threads k (by rw [hf, he])]
      exact h.resets
    · exact (update_eq_some hj).elim (by simp) (h.threads j)
    · show _ ∈ (s.functors.push f).queue
      rw [Batched.queue_push]
      exact List.mem_append_left _ hq
    · by_cases hjk : j = k
      · obtain rfl : f = .startInLoop := by
          rw [hjk, hf] at hj
          exact Option.some.inj hj
        left
        show _ ∈ (s.functors.push _).queue
        rw [Batched.queue_push]
        exact List.mem_append_right _ List.mem_cons_self
      · exact Or.inr ⟨j, by rw [← hj]; exact Function.update_of_ne hjk ..⟩
  | resume savedErrno hpc => exact onCourse_resume h hp hok
  | handleEvent pollErr pollOut err selfConnect c hpc hr hc =>
    exact onCourse_handleEvent h hp pollErr pollOut err selfConnect
  | timer ms hpc =>
    exact onCourse_startInLoop ⟨h.attempt, h.connected, h.resets, h.threads, h.delay,
      fun m hm => h.timers m (List.mem_of_mem_erase hm)⟩
  | doPendingFunctors hpc hr =>
    have hq := Batched.queue_swap hr
    refine fun _ => ⟨⟨h.attempt, h.connected, ?_, h.threads, h.delay, h.timers⟩,
      fun hc => (hp hc).mono rfl rfl rfl (fun _ h => h) (fun hf => Or.inl (hq ▸ hf))
        (fun k hk => Or.inr ⟨k, hk⟩) rfl (fun _ h => h)⟩
    show s.functors.swap.queue.count _ = s.stale
    rw [hq]
    exact h.resets
  | runFunctor f fs hpc hr =>
    cases f with
    | startInLoop => exact onCourse_startInLoop (h.pop hr (by simp))
    | stopInLoop n =>
      exact onCourse_stopInLoop (h.pop hr (by simp)) (fun hc => (hp hc).pop hr (by simp)) n
    | resetChannel => exact onCourse_resetChannel h hp hr

/-- **A connector keeps trying** while `connect_` is set. -/
theorem keeps_trying {as : List Act}
    (hrun : Steps.run (Steps.guarded Hopeful step) init as = some t) (hf : t.failed = none)
    (hc : t.connect = true) : Pursues t := by
  refine (Steps.run_invariant (I := OnCourse) ?_ ?_ hrun hf).2 hc
  · intro s a u h hs
    obtain ⟨hok, hs⟩ := Steps.guarded_eq_some.mp hs
    obtain ⟨hf, hst⟩ := step_stepped hs
    obtain ⟨h, hp⟩ := h hf
    exact onCourse_stepped h hp hok hst
  · exact fun _ => ⟨⟨by simp [init], by simp [init], rfl, by simp [init], by decide, by simp [init]⟩,
      by simp [init]⟩

/-- Another thread stops the connector while it connects, and starts it again; then the attempt
fails. -/
def stoppedAndStarted : List Act :=
  [.start, .resume .none, .resume .EINPROGRESS, .stopFrom 1 0, .queueFrom 1, .startFrom 2,
    .doPendingFunctors, .runFunctor, .resume .none, .resume .none]

theorem keeps_trying_stoppedAndStarted : ∃ t,
    Steps.run (Steps.guarded Hopeful step) init stoppedAndStarted = some t ∧ t.state = .kDisconnected ∧
      t.timers = [500] ∧ Pursues t := by
  have hrun : Steps.run (Steps.guarded Hopeful step) init stoppedAndStarted = some _ := rfl
  exact ⟨_, hrun, rfl, rfl, keeps_trying hrun rfl rfl⟩

/-! ### The delays of the retries -/

end

end Connector

/-- The delay of a retry timer. -/
def ConnectorEvent.delay : ConnectorEvent → Option Nat
  | .runAfter ms => some ms
  | _ => none

namespace Connector

/-- The delays of the retry timers, in the order in which they were set. -/
def delays (s : Connector) : List Nat := s.trace.filterMap ConnectorEvent.delay

/-- The delay of the `n`-th retry. -/
def backoff (n : Nat) : Nat := min (kInitRetryDelayMs * 2 ^ n) kMaxRetryDelayMs

theorem backoff_succ (n : Nat) : min (backoff n * 2) kMaxRetryDelayMs = backoff (n + 1) := by
  rw [backoff, backoff, Nat.pow_succ, ← Nat.mul_assoc]
  generalize kInitRetryDelayMs * 2 ^ n = d
  unfold kMaxRetryDelayMs
  omega

section

variable {s t : Connector} {fd n : Nat}

/-- Nothing is scheduled. -/
def SameDelay (s t : Connector) : Prop := t.retryDelayMs = s.retryDelayMs ∧ t.delays = s.delays

theorem SameDelay.trans {u : Connector} (h : SameDelay s t) (g : SameDelay t u) : SameDelay s u :=
  ⟨g.1.trans h.1, g.2.trans h.2⟩

theorem sameDelay_emit (s : Connector) {e : ConnectorEvent} (he : e.delay = none) :
    SameDelay s (s.emit e) := by
  refine ⟨rfl, ?_⟩
  rw [delays, emit_trace, List.filterMap_append, List.filterMap_cons_none he, List.filterMap_nil,
    List.append_nil]
  rfl

theorem sameDelay_startInLoop (s : Connector) : SameDelay s s.startInLoop := by
  unfold startInLoop
  split <;> exact ⟨rfl, rfl⟩

theorem sameDelay_removeAndResetChannel (x : ConnectorState) {f : Connector → Nat → Connector}
    (hf : ∀ u fd, SameDelay u (f u fd)) :
    SameDelay s ({ s with state := x }.removeAndResetChannel f) := by
  unfold removeAndResetChannel
  split
  · exact SameDelay.trans ⟨rfl, rfl⟩ (hf _ _)
  · exact ⟨rfl, rfl⟩

theorem sameDelay_retry (s : Connector) (fd : Nat) : SameDelay s (s.retry fd) :=
  SameDelay.trans (sameDelay_emit s (e := .close fd) rfl) ⟨rfl, rfl⟩

theorem sameDelay_handleError (s : Connector) : SameDelay s s.handleError := by
  unfold handleError
  split
  · exact sameDelay_removeAndResetChannel s.state sameDelay_retry
  · exact ⟨rfl, rfl⟩

theorem sameDelay_handleWrite (s : Connector) (err selfConnect : Bool) :
    SameDelay s (s.handleWrite err selfConnect) := by
  unfold handleWrite
  split
  · refine sameDelay_removeAndResetChannel s.state fun u fd => ?_
    split
    · exact sameDelay_retry u fd
    split
    · exact sameDelay_retry u fd
    · exact SameDelay.trans (sameDelay_emit u (e := .connected fd) rfl) ⟨rfl, rfl⟩
  · split <;> exact ⟨rfl, rfl⟩

theorem sameDelay_handleEvent (s : Connector) (pollErr pollOut err selfConnect : Bool) :
    SameDelay s (s.handleEvent pollErr pollOut err selfConnect) := by
  unfold handleEvent
  cases pollErr <;> cases pollOut
  · exact ⟨rfl, rfl⟩
  · exact sameDelay_handleWrite s err selfConnect
  · exact sameDelay_handleError s
  · exact (sameDelay_handleError s).trans (sameDelay_handleWrite _ err selfConnect)

theorem sameDelay_connectSocket (s : Connector) (savedErrno : ConnectErrno) :
    SameDelay s (s.connectSocket savedErrno) := by
  have he := sameDelay_emit s (e := .connect s.numFds) rfl
  unfold connectSocket
  split
  · simp only [connecting]
    split <;> exact he
  · exact he.trans (sameDelay_retry { s.emit (.connect s.numFds) with
      numFds := s.numFds + 1, lastSocket := some s.numFds } _)
  · exact he.trans (sameDelay_emit { s.emit (.connect s.numFds) with
      numFds := s.numFds + 1, lastSocket := some s.numFds } (e := .close s.numFds) rfl)

theorem sameDelay_runTask (s : Connector) (f : ConnectorTask) : SameDelay s (s.runTask f) := by
  cases f with
  | startInLoop => exact sameDelay_startInLoop s
  | resetChannel => exact SameDelay.trans (sameDelay_emit s (e := .resetChannel s.channel) rfl) ⟨rfl, rfl⟩
  | stopInLoop n =>
    have he := sameDelay_emit s (e := .stopInLoop n) rfl
    show SameDelay s (s.stopInLoop n)
    unfold stopInLoop
    simp only
    split
    · exact he.trans (sameDelay_removeAndResetChannel _ sameDelay_retry)
    · exact he

/-- **A step sets at most one retry timer**, and then doubles the delay. -/
theorem delay_stepped {a : Act} (ha : a ≠ .restart) (hst : Stepped s a t) :
    SameDelay s t ∨ t.retryDelayMs = min (s.retryDelayMs * 2) kMaxRetryDelayMs ∧
      t.delays = s.delays ++ [s.retryDelayMs] := by
  cases hst with
  | start hpc =>
    refine Or.inl (SameDelay.trans ?_ (sameDelay_startInLoop _))
    exact sameDelay_emit { s with connect := true } rfl
  | stop n hpc => exact Or.inl ⟨rfl, rfl⟩
  | restart hpc => exact absurd rfl ha
  | startFrom k => exact Or.inl (sameDelay_emit s (e := .start) rfl)
  | stopFrom k n => exact Or.inl ⟨rfl, rfl⟩
  | queueFrom k f hf => exact Or.inl ⟨rfl, rfl⟩
  | handleEvent pollErr pollOut err selfConnect c hpc hr hc =>
    exact Or.inl (sameDelay_handleEvent s pollErr pollOut err selfConnect)
  | timer ms hpc => exact Or.inl (sameDelay_startInLoop { s with timers := s.timers.erase ms })
  | doPendingFunctors hpc hr => exact Or.inl ⟨rfl, rfl⟩
  | runFunctor f fs hpc hr => exact Or.inl (sameDelay_runTask { s with functors := s.functors.tail } f)
  | resume savedErrno hpc =>
    unfold resume
    split
    · exact Or.inl ⟨rfl, rfl⟩
    · exact Or.inl ⟨rfl, rfl⟩
    · exact Or.inl (sameDelay_connectSocket s savedErrno)
    · exact Or.inl ⟨rfl, rfl⟩
    · right
      refine ⟨rfl, ?_⟩
      rw [delays, runAfter]
      simp [delays, ConnectorEvent.delay]
    · next fd hpc =>
      split
      · exact Or.inl ⟨rfl, rfl⟩
      · exact Or.inl (sameDelay_emit s (e := .close fd) rfl)
    · next fd hpc => exact Or.inl (sameDelay_emit s (e := .newConnectionCallback fd) rfl)

/-- **The delays double** from `kInitRetryDelayMs` up to `kMaxRetryDelayMs`, and start anew with
each `restart()`. -/
theorem backoff_doubles {as bs : List Act} (has : as = [] ∨ as.getLast? = some .restart)
    (hbs : .restart ∉ bs) (hrun : Steps.run step init (as ++ bs) = some t) :
    ∃ s n, Steps.run step init as = some s ∧ t.delays = s.delays ++ (List.range n).map backoff := by
  rw [Steps.run_append] at hrun
  obtain ⟨s, hs, hrun⟩ := Option.bind_eq_some_iff.mp hrun
  have hinit : s.retryDelayMs = backoff 0 := by
    rcases has with rfl | hlast
    · exact Option.some.inj hs ▸ rfl
    · obtain ⟨cs, rfl⟩ := List.getLast?_eq_some_iff.mp hlast
      rw [Steps.run_append] at hs
      obtain ⟨u, -, hs⟩ := Option.bind_eq_some_iff.mp hs
      obtain ⟨v, hv, hs⟩ := Steps.run_cons_eq_some.mp hs
      obtain rfl := Option.some.inj hs
      cases (step_stepped hv).2 with
      | restart hpc => exact (sameDelay_startInLoop _).1
  have hinv := Steps.run_invariant_of (p := (· ≠ Act.restart)) (I := fun u => ∃ n,
      u.retryDelayMs = backoff n ∧ u.delays = s.delays ++ (List.range n).map backoff) ?_
    (fun a ha he => hbs (he ▸ ha)) ⟨0, hinit, (List.append_nil _).symm⟩ hrun
  · obtain ⟨n, -, hn⟩ := hinv
    exact ⟨s, n, hs, hn⟩
  · rintro u a v ha ⟨n, hd, hl⟩ hst
    rcases delay_stepped ha (step_stepped hst).2 with ⟨h1, h2⟩ | ⟨h1, h2⟩
    · exact ⟨n, h1.trans hd, h2.trans hl⟩
    · refine ⟨n + 1, by rw [h1, hd, backoff_succ], ?_⟩
      rw [h2, hl, hd, List.range_succ, List.map_append, List.append_assoc]
      rfl

/-- Three attempts are refused, the user starts anew, and one more is refused. -/
def refusedAgain : List Act :=
  let refused := [Act.resume .none, .resume .ECONNREFUSED, .resume .none, .resume .none]
  [.start] ++ refused ++ [.timer 500] ++ refused ++ [.timer 1000] ++ refused ++ [.restart]

theorem backoff_doubles_refusedAgain : ∃ s t n, Steps.run step init refusedAgain = some s ∧
    Steps.run step init (refusedAgain ++ [.resume .none, .resume .ENETUNREACH, .resume .none,
      .resume .none]) = some t ∧ s.delays = [500, 1000, 2000] ∧
    t.delays = s.delays ++ (List.range n).map backoff := by
  have hrun : Steps.run step init (refusedAgain ++ [.resume .none, .resume .ENETUNREACH, .resume .none,
    .resume .none]) = some _ := rfl
  obtain ⟨s, n, hs, hn⟩ := backoff_doubles (Or.inr rfl) (by decide) hrun
  obtain rfl := Option.some.inj (hs.symm.trans (show Steps.run step init refusedAgain = some _ from rfl))
  exact ⟨_, _, n, hs, hrun, rfl, hn⟩

end

end Connector

end SimpleNet
