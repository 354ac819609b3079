import SimpleNet.Client.TcpClient

/-!
# What a client and its connector have in common

The channel, the state and the place of the loop's thread keep together (`Tidy`): a channel that is
no attempt's waits for its `resetChannel`, and the code from `startInLoop` to the retry timer finds
the connector disconnected.  A client with a connection, or one that has just lost it, has a
connector that is connected (`Coherent`).

With no attempt under way the loop's thread changes next to nothing (`Quiet`).
-/

namespace SimpleNet

open Function (update)

/-! ### The connector -/

namespace Connector

/-- What the channel and the state have in common at each place of the loop's thread. -/
structure Tidy (s : Connector) : Prop where
  /-- a channel that is no longer used waits for its `resetChannel` -/
  channel : s.channel ≠ none → s.state = .kConnecting ∨ .resetChannel ∈ s.functors.queue
  disconnected : s.pc = .starting ∨ s.pc = .calling ∨ s.pc = .retrying ∨ s.pc = .scheduling →
    s.state = .kDisconnected
  connected : ∀ fd, s.pc = .testing fd ∨ s.pc = .handing fd → s.state = .kConnected

section

variable {s t : Connector} {a : Act}

/-- Only `pc` says where the thread is. -/
theorem Tidy.of_idle (hc : s.channel ≠ none → s.state = .kConnecting ∨ .resetChannel ∈ s.functors.queue)
    (hpc : s.pc = .idle) : Tidy s :=
  ⟨hc, by simp [hpc], by simp [hpc]⟩

theorem tidy_startInLoop (h : Tidy s) : Tidy s.startInLoop := by
  unfold startInLoop
  split
  · next hs => exact ⟨h.channel, fun _ => hs, by simp⟩
  · exact ⟨h.channel, h.disconnected, h.connected⟩

theorem tidy_retry (fd : Nat) (hc : .resetChannel ∈ s.functors.queue ∨ s.channel = none) :
    Tidy (s.retry fd) :=
  ⟨fun hn => Or.inr (hc.resolve_right hn), fun _ => rfl, by simp [retry]⟩

/-- The channel is left to `resetChannel`, and the descriptor is closed. -/
theorem tidy_removeAndResetChannel (hpc : s.pc = .idle) (x : ConnectorState) :
    Tidy ({ s with state := x }.removeAndResetChannel retry) := by
  obtain hc | ⟨c, hc⟩ := Option.eq_none_or_eq_some s.channel
  · rw [removeAndResetChannel_none (s := { s with state := x }) hc]
    exact Tidy.of_idle (fun hn => absurd hc hn) hpc
  · rw [removeAndResetChannel_some (s := { s with state := x }) hc]
    refine tidy_retry c.fd (Or.inl ?_)
    rw [queueInLoop, Batched.queue_push]
    exact List.mem_append_right _ List.mem_cons_self

theorem tidy_handleError (h : Tidy s) (hpc : s.pc = .idle) :
    Tidy s.handleError := by
  unfold handleError
  split
  · exact tidy_removeAndResetChannel hpc s.state
  · exact h

theorem tidy_handleWrite (h : Tidy s) (hpc : s.state = .kConnecting → s.pc = .idle)
    (err selfConnect : Bool) : Tidy (s.handleWrite err selfConnect) := by
  unfold handleWrite
  split
  · next hs =>
    obtain hc | ⟨c, hc⟩ := Option.eq_none_or_eq_some s.channel
    · rw [removeAndResetChannel_none hc]
      exact Tidy.of_idle (fun hn => absurd hc hn) (hpc hs)
    · have hmem : .resetChannel ∈ ({ s with
          channel := some { c with registered := false } }.queueInLoop .resetChannel).functors.queue := by
        rw [queueInLoop, Batched.queue_push]
        exact List.mem_append_right _ List.mem_cons_self
      rw [removeAndResetChannel_some hc]
      split
      · exact tidy_retry c.fd (Or.inl hmem)
      · split
        · exact tidy_retry c.fd (Or.inl hmem)
        · exact ⟨fun _ => Or.inr hmem, by simp, fun _ _ => rfl⟩
  · split
    · exact h
    · exact ⟨h.channel, h.disconnected, h.connected⟩

theorem handleError_state (h : s.state ≠ .kConnecting) : s.handleError = s := if_neg h

theorem handleError_connecting {c : ConnectorChannel} (hc : s.channel = some c)
    (hs : s.state = .kConnecting) : s.handleError.state = .kDisconnected := by
  rw [handleError, if_pos hs, removeAndResetChannel_some hc]
  rfl

theorem tidy_handleEvent (h : Tidy s) (hpc : s.pc = .idle) {c : ConnectorChannel}
    (hc : s.channel = some c) (pollErr pollOut err selfConnect : Bool) :
    Tidy (s.handleEvent pollErr pollOut err selfConnect) := by
  unfold handleEvent
  cases pollErr <;> cases pollOut
  · exact h
  · exact tidy_handleWrite h (fun _ => hpc) err selfConnect
  · exact tidy_handleError h hpc
  · refine tidy_handleWrite (tidy_handleError h hpc) (fun hs => ?_) err selfConnect
    by_cases hk : s.state = .kConnecting
    · rw [handleError_connecting hc hk] at hs
      cases hs
    · rw [handleError_state hk]
      exact hpc

theorem stopInLoop_connecting (hs : s.state = .kConnecting) (n : Nat) :
    s.stopInLoop n =
      { s.emit (.stopInLoop n) with state := .kDisconnected }.removeAndResetChannel retry := if_pos hs

theorem stopInLoop_of_ne (hs : s.state ≠ .kConnecting) (n : Nat) :
    s.stopInLoop n = s.emit (.stopInLoop n) := if_neg hs

theorem tidy_stopInLoop (h : Tidy s) (hpc : s.pc = .idle) (n : Nat) : Tidy (s.stopInLoop n) := by
  by_cases hs : s.state = .kConnecting
  · rw [stopInLoop_connecting hs]
    exact tidy_removeAndResetChannel (s := s.emit (.stopInLoop n)) hpc .kDisconnected
  · rw [stopInLoop_of_ne hs]
    exact ⟨h.channel, h.disconnected, h.connected⟩

theorem tidy_connectSocket (h : Tidy s) (hpc : s.pc = .calling) (savedErrno : ConnectErrno) :
    Tidy (s.connectSocket savedErrno) := by
  have hs := h.disconnected (by simp [hpc])
  have hc : s.channel = none ∨ .resetChannel ∈ s.functors.queue := by
    by_cases hn : s.channel = none
    · exact Or.inl hn
    · rcases h.channel hn with hk | hq
      · rw [hs] at hk
        cases hk
      · exact Or.inr hq
  unfold connectSocket
  simp only
  split
  · unfold connecting
    simp only
    split
    · exact Tidy.of_idle (fun _ => Or.inl rfl) rfl
    · exact Tidy.of_idle (fun _ => Or.inl rfl) rfl
  · exact tidy_retry _ hc.symm
  · exact Tidy.of_idle (fun hn => Or.inr (hc.resolve_left hn)) rfl

theorem tidy_resume (h : Tidy s) (savedErrno : ConnectErrno) : Tidy (s.resume savedErrno) := by
  unfold resume
  split
  · exact h
  · next hpc =>
    refine ⟨h.channel, fun _ => h.disconnected (by simp [hpc]), fun fd hfd => ?_⟩
    split at hfd <;> simp at hfd
  · next hpc => exact tidy_connectSocket h hpc savedErrno
  · next hpc =>
    refine ⟨h.channel, fun _ => h.disconnected (by simp [hpc]), fun fd hfd => ?_⟩
    split at hfd <;> simp at hfd
  · exact Tidy.of_idle h.channel rfl
  · next fd hpc =>
    split
    · exact ⟨h.channel, by simp, fun _ _ => h.connected fd (Or.inl hpc)⟩
    · exact Tidy.of_idle h.channel rfl
  · exact Tidy.of_idle h.channel rfl

/-- The first functor of the batch. -/
theorem tidy_runTask (h : Tidy s) (hpc : s.pc = .idle) {f : ConnectorTask} {fs : List ConnectorTask}
    (hr : s.functors.rest = f :: fs) : Tidy ({ s with functors := s.functors.tail }.runTask f) := by
  by_cases hf : f = .resetChannel
  · subst hf
    exact Tidy.of_idle (fun hn => absurd rfl hn) hpc
  · -- another functor leaves a `resetChannel` in the queue
    have htail : Tidy { s with functors := s.functors.tail } := by
      refine Tidy.of_idle (fun hn => (h.channel hn).imp_right fun hq => ?_) hpc
      rw [Batched.queue_of_rest hr] at hq
      exact (List.mem_cons.mp hq).resolve_left (Ne.symm hf)
    cases f with
    | startInLoop => exact tidy_startInLoop htail
    | stopInLoop n => exact tidy_stopInLoop htail hpc n
    | resetChannel => exact absurd rfl hf

/-- **The steps of the loop's thread.** -/
theorem tidy_stepped (h : Tidy s) (ha : a.ofLoop = true) (hst : Stepped s a t) : Tidy t := by
  cases hst with
  | start | stop | restart | startFrom | stopFrom | queueFrom => cases ha
  | resume savedErrno hpc => exact tidy_resume h savedErrno
  | handleEvent pollErr pollOut err selfConnect c hpc hr hc =>
    exact tidy_handleEvent h hpc hc pollErr pollOut err selfConnect
  | timer ms hpc => exact tidy_startInLoop ⟨h.channel, h.disconnected, h.connected⟩
  | doPendingFunctors hpc hr =>
    refine Tidy.of_idle (fun hn => (h.channel hn).imp_right fun hq => ?_) hpc
    rwa [Batched.queue_swap hr]
  | runFunctor f fs hpc hr => exact tidy_runTask h hpc hr

/-! ### With no attempt under way -/

theorem startInLoop_connected (hs : s.state = .kConnected) :
    s.startInLoop = { s with failed := some .startInLoop } :=
  if_neg (by rw [hs]; simp)

theorem handleEvent_of_ne (hs : s.state ≠ .kConnecting) (pollErr pollOut err selfConnect : Bool) :
    s.handleEvent pollErr pollOut err selfConnect = s ∨
      s.handleEvent pollErr pollOut err selfConnect = { s with failed := some .handleWrite } := by
  have hw : s.handleWrite err selfConnect = s ∨
      s.handleWrite err selfConnect = { s with failed := some .handleWrite } := by
    unfold handleWrite
    rw [if_neg hs]
    split
    · exact Or.inl rfl
    · exact Or.inr rfl
  unfold handleEvent
  rw [handleError_state hs]
  cases pollErr <;> cases pollOut
  · exact Or.inl rfl
  · exact hw
  · exact Or.inl rfl
  · exact hw

/-- A connector that has connected stays so until `restart()`. -/
theorem connected_stepped (h : Tidy s) (ha : a.ofLoop = true) (hst : Stepped s a t)
    (hs : s.state = .kConnected) : t.state = .kConnected ∧ (s.pc = .idle → t.pc = .idle) := by
  cases hst with
  | start | stop | restart | startFrom | stopFrom | queueFrom => cases ha
  | resume savedErrno hpc =>
    refine ⟨?_, fun hi => absurd hi hpc⟩
    have hd := h.disconnected
    rw [hs] at hd
    unfold resume
    split
    · exact hs
    · next hp => cases hd (by simp [hp])
    · next hp => cases hd (by simp [hp])
    · next hp => cases hd (by simp [hp])
    · next hp => cases hd (by simp [hp])
    · split
      · exact hs
      · exact hs
    · exact hs
  | handleEvent pollErr pollOut err selfConnect c hpc hr hc =>
    rcases handleEvent_of_ne (by rw [hs]; simp) pollErr pollOut err selfConnect with he | he
    · rw [he]
      exact ⟨hs, id⟩
    · rw [he]
      exact ⟨hs, id⟩
  | timer ms hpc =>
    rw [startInLoop_connected (by exact hs)]
    exact ⟨hs, id⟩
  | doPendingFunctors hpc hr => exact ⟨hs, id⟩
  | runFunctor f fs hpc hr =>
    cases f with
    | startInLoop =>
      rw [runTask, startInLoop_connected (by exact hs)]
      exact ⟨hs, id⟩
    | stopInLoop n =>
      have hne : ({ s with functors := s.functors.tail } : Connector).state ≠ .kConnecting := by
        simp [hs]
      rw [runTask, stopInLoop_of_ne hne]
      exact ⟨hs, id⟩
    | resetChannel => exact ⟨hs, id⟩

/-- Within its code the loop's thread goes on with it. -/
theorem Stepped.resume_of_ne (hst : Stepped s a t) (ha : a.ofLoop = true) (hpc : s.pc ≠ .idle) :
    ∃ savedErrno, a = .resume savedErrno := by
  cases hst with
  | start | stop | restart | startFrom | stopFrom | queueFrom => cases ha
  | resume savedErrno => exact ⟨savedErrno, rfl⟩
  | handleEvent pollErr pollOut err selfConnect c hi => exact absurd hi hpc
  | timer ms hi => exact absurd hi hpc
  | doPendingFunctors hi => exact absurd hi hpc
  | runFunctor f fs hi => exact absurd hi hpc

/-- Connected, the connector has only to hand its socket on. -/
theorem passed_of_connected (h : Tidy s) (hs : s.state = .kConnected)
    (hne : ∀ fd, s.pc ≠ .handing fd) : s.pc.passed = false := by
  have hd := h.disconnected
  rw [hs] at hd
  cases hpc : s.pc with
  | idle | starting | retrying | testing fd => rfl
  | calling => cases hd (by simp [hpc])
  | scheduling => cases hd (by simp [hpc])
  | handing fd => exact absurd hpc (hne fd)

/-- Where no attempt is about to be made the code that goes on leaves the state and the queue. -/
theorem resume_of_not_passed (hp : s.pc.passed = false) (savedErrno : ConnectErrno) :
    (s.resume savedErrno).state = s.state ∧ (s.resume savedErrno).functors = s.functors := by
  unfold resume
  split
  · exact ⟨rfl, rfl⟩
  · exact ⟨rfl, rfl⟩
  · next hpc => rw [hpc] at hp; cases hp
  · exact ⟨rfl, rfl⟩
  · next hpc => rw [hpc] at hp; cases hp
  · split
    · exact ⟨rfl, rfl⟩
    · exact ⟨rfl, rfl⟩
  · exact ⟨rfl, rfl⟩

/-- What the loop's thread does to a connector with no attempt under way. -/
structure Quiet (s : Connector) (a : Act) (t : Connector) : Prop where
  state : t.state = s.state
  functors : t.functors = s.functors ∨
    a = .doPendingFunctors ∧ s.functors.rest = [] ∧ t.functors = s.functors.swap ∨
    a = .runFunctor ∧ t.functors = s.functors.tail
  /-- `startInLoop` comes from a timer or a functor -/
  pc : s.pc = .idle → t.pc = .idle ∨ (∃ ms, a = .timer ms) ∨ .startInLoop ∈ s.functors.queue

theorem startInLoop_state (s : Connector) : s.startInLoop.state = s.state := by
  unfold startInLoop
  split <;> rfl

/-- **The loop's thread is quiet** when no attempt is under way and none is about to be made. -/
theorem quiet_stepped (hs : s.state ≠ .kConnecting) (hp : s.pc.passed = false) (ha : a.ofLoop = true)
    (hst : Stepped s a t) : Quiet s a t := by
  cases hst with
  | start | stop | restart | startFrom | stopFrom | queueFrom => cases ha
  | resume savedErrno hpc =>
    obtain ⟨h1, h2⟩ := resume_of_not_passed hp savedErrno
    exact ⟨h1, Or.inl h2, fun hi => absurd hi hpc⟩
  | handleEvent pollErr pollOut err selfConnect c hpc hr hc =>
    rcases handleEvent_of_ne hs pollErr pollOut err selfConnect with he | he
    · rw [he]
      exact ⟨rfl, Or.inl rfl, Or.inl⟩
    · rw [he]
      exact ⟨rfl, Or.inl rfl, Or.inl⟩
  | timer ms hpc hr hms =>
    exact ⟨startInLoop_state _, Or.inl (startInLoop_functors _), fun _ => Or.inr (Or.inl ⟨ms, rfl⟩)⟩
  | doPendingFunctors hpc hr => exact ⟨rfl, Or.inr (Or.inl ⟨rfl, hr, rfl⟩), Or.inl⟩
  | runFunctor f fs hpc hr =>
    cases f with
    | startInLoop =>
      exact ⟨startInLoop_state _, Or.inr (Or.inr ⟨rfl, startInLoop_functors _⟩),
        fun _ => Or.inr (Or.inr (Batched.mem_queue_of_rest hr))⟩
    | stopInLoop n =>
      rw [runTask, stopInLoop_of_ne (s := { s with functors := s.functors.tail }) hs]
      exact ⟨rfl, Or.inr (Or.inr ⟨rfl, rfl⟩), Or.inl⟩
    | resetChannel => exact ⟨rfl, Or.inr (Or.inr ⟨rfl, rfl⟩), Or.inl⟩

/-! ### The retry timers -/

theorem timers_startInLoop (s : Connector) : s.startInLoop.timers = s.timers := by
  unfold startInLoop
  split <;> rfl

theorem timers_removeAndResetChannel (x : ConnectorState) :
    ({ s with state := x }.removeAndResetChannel retry).timers = s.timers := by
  unfold removeAndResetChannel
  split <;> rfl

theorem timers_handleError (s : Connector) : s.handleError.timers = s.timers := by
  unfold handleError
  split
  · exact timers_removeAndResetChannel s.state
  · rfl

theorem timers_handleWrite (s : Connector) (err selfConnect : Bool) :
    (s.handleWrite err selfConnect).timers = s.timers := by
  unfold handleWrite
  split
  · unfold removeAndResetChannel
    split
    · split
      · rfl
      · split <;> rfl
    · rfl
  · split <;> rfl

theorem timers_handleEvent (s : Connector) (pollErr pollOut err selfConnect : Bool) :
    (s.handleEvent pollErr pollOut err selfConnect).timers = s.timers := by
  unfold handleEvent
  cases pollErr <;> cases pollOut
  · rfl
  · exact timers_handleWrite s err selfConnect
  · exact timers_handleError s
  · exact (timers_handleWrite _ err selfConnect).trans (timers_handleError s)

theorem timers_stopInLoop (s : Connector) (n : Nat) : (s.stopInLoop n).timers = s.timers := by
  unfold stopInLoop
  simp only
  split
  · exact timers_removeAndResetChannel (s := s.emit (.stopInLoop n)) .kDisconnected
  · rfl

theorem timers_connectSocket (s : Connector) (savedErrno : ConnectErrno) :
    (s.connectSocket savedErrno).timers = s.timers := by
  unfold connectSocket
  simp only
  split
  · unfold connecting
    simp only
    split <;> rfl
  · rfl
  · rfl

theorem timers_resume (hp : s.pc ≠ .scheduling) (savedErrno : ConnectErrno) :
    (s.resume savedErrno).timers = s.timers := by
  unfold resume
  split
  · rfl
  · rfl
  · exact timers_connectSocket s savedErrno
  · rfl
  · contradiction
  · split <;> rfl
  · rfl

/-- A retry timer goes away when it fires, and one is set at the end of `retry` only. -/
theorem timers_stepped (ha : a.ofLoop = true) (hst : Stepped s a t) :
    ((∀ ms, a ≠ .timer ms) ∧ t.timers = s.timers) ∨
      (∃ ms ∈ s.timers, a = .timer ms ∧ t.timers = s.timers.erase ms) ∨
        s.pc = .scheduling ∧ t = s.runAfter := by
  cases hst with
  | start | stop | restart | startFrom | stopFrom | queueFrom => cases ha
  | resume savedErrno hpc =>
    by_cases hp : s.pc = .scheduling
    · exact Or.inr (Or.inr ⟨hp, by rw [resume, hp]⟩)
    · exact Or.inl ⟨by simp, timers_resume hp savedErrno⟩
  | handleEvent pollErr pollOut err selfConnect c hpc hr hc =>
    exact Or.inl ⟨by simp, timers_handleEvent s pollErr pollOut err selfConnect⟩
  | timer ms hpc hr hms => exact Or.inr (Or.inl ⟨ms, hms, rfl, timers_startInLoop _⟩)
  | doPendingFunctors hpc hr => exact Or.inl ⟨by simp, rfl⟩
  | runFunctor f fs hpc hr =>
    refine Or.inl ⟨by simp, ?_⟩
    cases f with
    | startInLoop => exact timers_startInLoop _
    | stopInLoop n => exact timers_stopInLoop _ n
    | resetChannel => rfl

end

end Connector

/-! ### The client -/

namespace TcpClient

/-- What a client knows of its connector. -/
structure Coherent (c : TcpClient) : Prop where
  tidy : c.connector.Tidy
  connection : c.connection ≠ none → c.connector.state = .kConnected
  connecting : c.connecting = true → c.restarting = false ∧ c.connector.pc = .idle
  restarting : c.restarting = true →
    c.connection = none ∧ c.connector.state = .kConnected ∧ c.connector.pc = .idle

variable {c d : TcpClient}

theorem Coherent.tidy_queue (h : Coherent c) {q : Batched ConnectorTask}
    (hq : ∀ f ∈ c.connector.functors.queue, f ∈ q.queue) {b : Bool} {l : List ConnectorEvent}
    {th : Nat → Option ConnectorTask} :
    Connector.Tidy { c.connector with connect := b, functors := q, threads := th, trace := l } :=
  ⟨fun hn => (h.tidy.channel hn).imp_right (hq _), h.tidy.disconnected, h.tidy.connected⟩

/-- What a step of the connector is within a step of the client. -/
theorem step_connector {a : Connector.Act} (hst : c.step (.connector a) = some d) :
    a.ofLoop = true ∧ c.Free ∧ c.connector.step a = some d.connector ∧
      d.connect = c.connect ∧ d.connecting = c.connecting ∧ d.restarting = c.restarting ∧
        ((∃ fd, c.connector.pc = .handing fd ∧ d.connection = some fd) ∨
          (∀ fd, c.connector.pc ≠ .handing fd) ∧ d.connection = c.connection) := by
  simp only [step, Option.ite_none_left_eq_some, Option.ite_none_right_eq_some,
    Option.map_eq_some_iff] at hst
  obtain ⟨-, ⟨ha, hfree⟩, e, he, rfl⟩ := hst
  refine ⟨ha, hfree, ?_⟩
  split
  · next fd hpc => exact ⟨he, rfl, rfl, rfl, Or.inl ⟨fd, hpc, rfl⟩⟩
  · next hpc => exact ⟨he, rfl, rfl, rfl, Or.inr ⟨hpc, rfl⟩⟩

/-- The loop's thread goes on in the connector. -/
theorem coherent_connector {a : Connector.Act} (h : Coherent c)
    (hst : c.step (.connector a) = some d) : Coherent d := by
  obtain ⟨ha, ⟨hcn, hr⟩, hs, -, hcn', hr', hc⟩ := step_connector hst
  have hs := (Connector.step_stepped hs).2
  refine ⟨Connector.tidy_stepped h.tidy ha hs, ?_, ?_, ?_⟩
  · intro hn
    have hk : c.connector.state = .kConnected := by
      rcases hc with ⟨fd, hpc, -⟩ | ⟨-, hc⟩
      · exact h.tidy.connected fd (Or.inr hpc)
      · exact h.connection (hc ▸ hn)
    exact (Connector.connected_stepped h.tidy ha hs hk).1
  · intro hn
    rw [hcn', hcn] at hn
    cases hn
  · intro hn
    rw [hr', hr] at hn
    cases hn

/-- **A step of the client.** -/
theorem coherent_step {a : Act} (h : Coherent c) (hst : c.step a = some d) : Coherent d := by
  cases a with
  | connector a => exact coherent_connector h hst
  | connect =>
    cases step_stepped hst with
    | connect hpc hfree hf =>
      exact ⟨h.tidy_queue fun _ => id, h.connection, fun _ => ⟨hfree.2, hpc⟩, h.restarting⟩
  | start =>
    cases step_stepped hst with
    | start hcn hpc hf =>
      refine ⟨Connector.tidy_startInLoop (h.tidy_queue fun _ => id), fun hc => ?_, nofun, fun hr => ?_⟩
      · exact (Connector.startInLoop_state _).trans (h.connection hc)
      · rw [(h.connecting hcn).1] at hr
        cases hr
  | disconnect =>
    cases step_stepped hst with
    | disconnect => exact { h with }
  | enableRetry =>
    cases step_stepped hst with
    | enableRetry => exact { h with }
  | stopFrom k =>
    cases step_stepped hst with
    | stopFrom => exact { h with }
  | stop =>
    cases step_stepped hst with
    | stop hfree =>
      exact ⟨h.tidy_queue fun _ => Batched.mem_queue_push, h.connection, h.connecting, h.restarting⟩
  | stopConnector k =>
    cases step_stepped hst with
    | stopConnector _ n hk =>
      exact ⟨h.tidy_queue fun _ => id, h.connection, h.connecting, h.restarting⟩
  | queueFrom k =>
    cases step_stepped hst with
    | queueFrom _ n hk =>
      exact ⟨h.tidy_queue fun _ => Batched.mem_queue_push, h.connection, h.connecting, h.restarting⟩
  | removeConnection =>
    cases step_stepped hst with
    | removeConnection hpc hfree hc =>
      have hs := h.connection (Option.isSome_iff_ne_none.mp hc)
      refine ⟨h.tidy, fun hn => absurd rfl hn, fun hn => ?_, fun _ => ⟨rfl, hs, hpc⟩⟩
      rw [show c.removeConnection.connecting = c.connecting from rfl, hfree.1] at hn
      cases hn
  | restart =>
    cases step_stepped hst with
    | restart hr hpc hf =>
      obtain ⟨hc, hs, -⟩ := h.restarting hr
      -- the channel of the last attempt is not used any more
      have hreset : c.connector.channel ≠ none → .resetChannel ∈ c.connector.functors.queue := by
        intro hn
        refine (h.tidy.channel hn).resolve_left ?_
        rw [hs]
        simp
      have ht : Connector.Tidy c.connector.restart := Connector.tidy_startInLoop
        (Connector.Tidy.of_idle (fun hn => Or.inr (hreset hn)) hpc)
      refine ⟨ht, fun hn => absurd hc hn, fun hn => ?_, nofun⟩
      rw [(h.connecting hn).1] at hr
      cases hr

theorem coherent_init : Coherent init :=
  ⟨Connector.Tidy.of_idle (fun hn => absurd rfl hn) rfl, fun hn => absurd rfl hn, nofun, nofun⟩

end TcpClient

end SimpleNet
