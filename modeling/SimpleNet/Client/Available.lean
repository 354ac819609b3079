import SimpleNet.Client.Coherent
import SimpleNet.Client.Retry

/-!
# A client that is to be connected

`keeps_serving`: while `connect_` is set, here and in the connector, a client has its connection, or
has lost it and is about to call `restart()`, or is within `connect()` and about to call `start()`,
or its connector is at it: the loop's thread is, an attempt waits in the poller, or a retry timer is
set.  And it has no connection while its connector makes an attempt, so never two.

This needs `retry_` when a connection is lost that the client was not told to give up, and that
`connect()` does not give up at an error of the program.
-/

namespace SimpleNet

open Function (update)

namespace Connector

/-! ### From attempt to attempt -/

/-- What a step of the loop's thread does to the last attempt. -/
inductive Moves (s t : Connector) : Prop
  | stays (hpc : s.pc = .idle) (hs : t.state = s.state) (hl : t.lastSocket = s.lastSocket)
      (ht : t.pc = .idle)
  /-- no attempt has succeeded -/
  | tries (hs : s.state ≠ .kConnected) (ht : t.state ≠ .kConnected)
  | connects (fd : Nat) (hs : s.state ≠ .kConnected) (ht : t.state = .kConnected)
      (hpc : t.pc = .testing fd)
  | passes (fd : Nat) (hpc : s.pc = .testing fd) (hs : t.state = s.state)
      (hl : t.lastSocket = s.lastSocket)
      (ht : t.pc = .handing fd ∨ t.pc = .idle ∧ t.connect = false)
  | hands (fd : Nat) (hpc : s.pc = .handing fd) (hs : t.state = s.state)
      (hl : t.lastSocket = s.lastSocket) (ht : t.pc = .idle)

/-- With a successful attempt the loop's thread does nothing but hand it on. -/
def Rests (s : Connector) : Prop :=
  s.state = .kConnected → s.pc = .idle ∨ ∃ fd, s.pc = .testing fd ∨ s.pc = .handing fd

section

variable {s t : Connector}

/-- What else changes before does not matter. -/
theorem Moves.of_eq {u : Connector} (h : Moves u t) (hs : u.state = s.state)
    (hl : u.lastSocket = s.lastSocket) (hpc : u.pc = s.pc) : Moves s t := by
  cases h with
  | stays h1 h2 h3 h4 => exact .stays (hpc ▸ h1) (h2.trans hs) (h3.trans hl) h4
  | tries h1 h2 => exact .tries (hs ▸ h1) h2
  | connects fd h1 h2 h3 => exact .connects fd (hs ▸ h1) h2 h3
  | passes fd h1 h2 h3 h4 => exact .passes fd (hpc ▸ h1) (h2.trans hs) (h3.trans hl) h4
  | hands fd h1 h2 h3 h4 => exact .hands fd (hpc ▸ h1) (h2.trans hs) (h3.trans hl) h4

theorem moves_startInLoop (hf : s.startInLoop.failed = none) :
    Moves s s.startInLoop := by
  unfold startInLoop at hf ⊢
  split at hf
  · next hs =>
    rw [if_pos hs]
    exact .tries (by simp [hs]) (by simp [hs])
  · cases hf

theorem moves_removed_retry (hs : s.state = .kConnecting) (x : ConnectorState)
    (hf : ({ s with state := x }.removeAndResetChannel retry).failed = none) :
    Moves s ({ s with state := x }.removeAndResetChannel retry) := by
  obtain hc | ⟨c, hc⟩ := Option.eq_none_or_eq_some s.channel
  · rw [removeAndResetChannel_none (s := { s with state := x }) hc] at hf
    cases hf
  · rw [removeAndResetChannel_some (s := { s with state := x }) hc]
    exact .tries (by simp [hs]) (by simp [retry])

theorem moves_handleError (hpc : s.pc = .idle) (hf : s.handleError.failed = none) :
    Moves s s.handleError := by
  unfold handleError at hf ⊢
  split at hf
  · next hs =>
    rw [if_pos hs]
    exact moves_removed_retry hs s.state hf
  · next hs =>
    rw [if_neg hs]
    exact .stays hpc rfl rfl hpc

theorem moves_handleWrite {err selfConnect : Bool} (hpc : s.pc = .idle)
    (hf : (s.handleWrite err selfConnect).failed = none) :
    Moves s (s.handleWrite err selfConnect) := by
  unfold handleWrite at hf ⊢
  split at hf
  · next hs =>
    rw [if_pos hs]
    have hne : s.state ≠ .kConnected := by simp [hs]
    obtain hc | ⟨c, hc⟩ := Option.eq_none_or_eq_some s.channel
    · rw [removeAndResetChannel_none hc] at hf
      cases hf
    · rw [removeAndResetChannel_some hc]
      split
      · exact .tries hne (by simp [retry])
      split
      · exact .tries hne (by simp [retry])
      · exact .connects c.fd hne rfl rfl
  · next hs =>
    rw [if_neg hs]
    split at hf
    · next hd =>
      rw [if_pos hd]
      exact .stays hpc rfl rfl hpc
    · cases hf

theorem moves_handleEvent (h : Course s) {pollErr pollOut err selfConnect : Bool} (hpc : s.pc = .idle)
    (hf : (s.handleEvent pollErr pollOut err selfConnect).failed = none) :
    Moves s (s.handleEvent pollErr pollOut err selfConnect) := by
  unfold handleEvent at hf ⊢
  cases pollErr <;> cases pollOut
  · exact .stays hpc rfl rfl hpc
  · exact moves_handleWrite hpc hf
  · exact moves_handleError hpc hf
  · show Moves s (s.handleError.handleWrite err selfConnect)
    change (s.handleError.handleWrite err selfConnect).failed = none at hf
    by_cases hs : s.state = .kConnecting
    · rw [handleWrite_handleError h hs] at hf ⊢
      exact moves_handleError hpc hf
    · rw [handleError, if_neg hs] at hf ⊢
      exact moves_handleWrite hpc hf

/-- `connect()` and `retry()` are not called after a success. -/
theorem moves_resume (hr : Rests s) (hpc : s.pc ≠ .idle) (savedErrno : ConnectErrno) :
    Moves s (s.resume savedErrno) := by
  have hne : (∀ fd, s.pc ≠ .testing fd ∧ s.pc ≠ .handing fd) → s.state ≠ .kConnected := by
    intro h hs
    obtain h1 | ⟨fd, h1 | h1⟩ := hr hs
    · exact hpc h1
    · exact (h fd).1 h1
    · exact (h fd).2 h1
  unfold resume
  split
  · contradiction
  · next hp => exact .tries (hne (by simp [hp])) (hne (by simp [hp]))
  · next hp =>
    have hs := hne (by simp [hp])
    refine .tries hs ?_
    unfold connectSocket
    simp only
    split
    · unfold connecting
      simp only
      split <;> simp
    · simp [retry]
    · exact hs
  · next hp => exact .tries (hne (by simp [hp])) (hne (by simp [hp]))
  · next hp => exact .tries (hne (by simp [hp])) (hne (by simp [hp]))
  · next fd hp =>
    split
    · exact .passes fd hp rfl rfl (Or.inl rfl)
    · next hc => exact .passes fd hp rfl rfl (Or.inr ⟨rfl, by simpa using hc⟩)
  · next fd hp => exact .hands fd hp rfl rfl rfl

theorem moves_stopInLoop {n : Nat} (hpc : s.pc = .idle) (hf : (s.stopInLoop n).failed = none) :
    Moves s (s.stopInLoop n) := by
  unfold stopInLoop at hf ⊢
  simp only at hf ⊢
  split at hf
  · next hs =>
    rw [if_pos hs]
    exact (moves_removed_retry hs .kDisconnected hf).of_eq rfl rfl rfl
  · next hs =>
    rw [if_neg hs]
    exact .stays hpc rfl rfl hpc

theorem moves_stepped {a : Act} (ha : a.ofLoop = true) (h : Course s) (hr : Rests s)
    (hst : Stepped s a t) (hf : t.failed = none) : Moves s t := by
  cases hst with
  | start hpc | stop n hpc | restart hpc | startFrom k | stopFrom k n | queueFrom k f hf => cases ha
  | resume savedErrno hpc => exact moves_resume hr hpc savedErrno
  | handleEvent pollErr pollOut err selfConnect c hpc hr hc => exact moves_handleEvent h hpc hf
  | timer ms hpc => exact (moves_startInLoop hf).of_eq rfl rfl rfl
  | doPendingFunctors hpc hr => exact .stays hpc rfl rfl hpc
  | runFunctor f fs hpc hr =>
    cases f with
    | startInLoop => exact (moves_startInLoop hf).of_eq rfl rfl rfl
    | stopInLoop n =>
      exact (moves_stopInLoop (s := { s with functors := s.functors.tail }) hpc hf).of_eq rfl rfl rfl
    | resetChannel => exact .stays hpc rfl rfl hpc

theorem Moves.rests (hm : Moves s t) : Rests t := by
  intro ht
  cases hm with
  | stays _ hs hl hpc => exact Or.inl hpc
  | tries hs hne => exact absurd ht hne
  | connects fd hs _ hpc => exact Or.inr ⟨fd, Or.inl hpc⟩
  | passes fd hpc hs hl hor => exact hor.elim (fun h => Or.inr ⟨fd, Or.inr h⟩) fun h => Or.inl h.1
  | hands fd hpc hs hl hidle => exact Or.inl hidle

/-- `startInLoop` is called. -/
theorem state_startInLoop (hf : s.startInLoop.failed = none) :
    s.state = .kDisconnected ∧ s.startInLoop.state = .kDisconnected := by
  unfold startInLoop at hf ⊢
  split at hf
  · next hs =>
    rw [if_pos hs]
    exact ⟨hs, hs⟩
  · cases hf

end

end Connector

namespace TcpClient

/-- A connection is lost only where it will be made again, unless the client was told to give it
up; and `connect()` does not give up. -/
def RetryOk (s : TcpClient) : Act → Prop
  | .removeConnection => s.connect = true → s.retry = true
  | .connector a => s.connector.Hopeful a
  | _ => True

instance (s : TcpClient) : (a : Act) → Decidable (RetryOk s a)
  | .removeConnection => inferInstanceAs (Decidable (_ → _))
  | .connector a => inferInstanceAs (Decidable (s.connector.Hopeful a))
  | .connect | .start | .disconnect | .stop | .enableRetry | .stopFrom _ | .stopConnector _
  | .queueFrom _ | .restart => .isTrue trivial

/-- What the runs of `keeps_serving` keep until an assertion fails. -/
structure ServeInv (s : TcpClient) : Prop where
  course : s.connector.Course
  pursues : s.connector.connect = true → s.connector.Pursues
  rests : s.connector.Rests
  /-- `start()` is called on the loop's thread only -/
  queue : .startInLoop ∉ s.connector.functors.queue
  threads : ∀ k, s.connector.threads k ≠ some .startInLoop
  /-- a socket that has been handed on is the connection's -/
  handed : s.connect = true → s.connector.connect = true → s.connector.state = .kConnected →
    s.connector.pc = .idle → s.connection.isSome ∨ s.restarting = true ∨ s.connecting = true
  one : ∀ fd, s.connection = some fd → s.connector.state = .kConnected ∧
    s.connector.lastSocket = some fd ∧ s.connector.pc = .idle
  lost : s.restarting = true → s.connection = none

variable {s t : TcpClient}

theorem serveInv_connector {a : Connector.Act} (h : ServeInv s) (hok : s.connector.Hopeful a)
    (hst : step s (.connector a) = some t) (hf : t.connector.failed = none) : ServeInv t := by
  obtain ⟨ha, hfree, hc, hconnect, hconnecting, hrestarting, hconn⟩ := step_connector hst
  have hc := (Connector.step_stepped hc).2
  obtain ⟨hcourse, hpursues⟩ := Connector.onCourse_stepped h.course h.pursues hok hc hf
  have hl := Connector.loopStep_stepped ha hc
  have hm := Connector.moves_stepped ha h.course h.rests hc hf
  refine ⟨hcourse, hpursues, hm.rests, fun hq => ?_, fun k => hl.threads ▸ h.threads k, ?_, ?_,
    fun hr' => ?_⟩
  · exact (hl.queue _ hq).elim h.queue (by simp)
  · intro h1 h2 h3 h4
    rw [hconnect] at h1
    have h2' := h2
    rw [hl.connect] at h2'
    rcases hconn with ⟨fd, -, hconn⟩ | ⟨hne, hconn⟩
    · exact Or.inl (by rw [hconn]; rfl)
    · cases hm with
      | stays hpc hs _ _ =>
        rw [hconn, hrestarting, hconnecting]
        exact h.handed h1 h2' (hs ▸ h3) hpc
      | tries _ ht => exact absurd h3 ht
      | connects fd _ _ hpc => rw [h4] at hpc; cases hpc
      | passes fd _ _ _ ht =>
        rcases ht with ht | ⟨-, ht⟩
        · rw [h4] at ht; cases ht
        · rw [h2] at ht; cases ht
      | hands fd hpc => exact absurd hpc (hne fd)
  · intro d hd
    rcases hconn with ⟨fd, hpc, hconn⟩ | ⟨-, hconn⟩
    · obtain rfl : fd = d := Option.some.inj (hconn.symm.trans hd)
      obtain ⟨hs, hlast⟩ := h.course.connected fd (Or.inr hpc)
      cases hm with
      | stays hpc' => rw [hpc] at hpc'; cases hpc'
      | tries hne => exact absurd hs hne
      | connects _ hne => exact absurd hs hne
      | passes d hpc' => rw [hpc] at hpc'; cases hpc'
      | hands d _ h1 h2 h3 => exact ⟨h1.trans hs, h2.trans hlast, h3⟩
    · obtain ⟨hs, hlast, hpc⟩ := h.one d (hconn ▸ hd)
      cases hm with
      | stays _ h1 h2 h3 => exact ⟨h1.trans hs, h2.trans hlast, h3⟩
      | tries hne => exact absurd hs hne
      | connects _ hne => exact absurd hs hne
      | passes d hpc' => rw [hpc] at hpc'; cases hpc'
      | hands d hpc' => rw [hpc] at hpc'; cases hpc'
  · rw [hrestarting, hfree.2] at hr'
    cases hr'

/-! ### Steps of a client -/

theorem course_emit {s : Connector} {e : ConnectorEvent} (h : s.Course) : (s.emit e).Course :=
  ⟨h.attempt, h.connected, h.resets, h.threads, h.delay, h.timers⟩

theorem pursues_emit {s : Connector} {e : ConnectorEvent} (h : s.Pursues) : (s.emit e).Pursues :=
  h.mono rfl rfl rfl (fun _ h => h) Or.inl (fun k hk => Or.inr ⟨k, hk⟩) rfl
    (List.subset_append_left _ _)

/-- Until an assertion fails. -/
def Serves (s : TcpClient) : Prop := s.connector.failed = none → ServeInv s

/-- `start()` or `restart()`: the connector is disconnected, and has no connection. -/
theorem serves_startInLoop {c : Connector} (h : s.connector.OnCourse)
    (hc : s.connector = c.startInLoop) (hq : .startInLoop ∉ c.functors.queue)
    (hk : ∀ k, c.threads k ≠ some .startInLoop)
    (hone : ∀ fd, s.connection = some fd → c.state = .kConnected)
    (hlost : s.restarting = true → s.connection = none) : Serves s := by
  intro hf
  obtain ⟨hcourse, hpursues⟩ := h hf
  obtain ⟨hs, ht⟩ := Connector.state_startInLoop (hc ▸ hf)
  rw [← hc] at ht
  have hne : s.connector.state ≠ .kConnected := by rw [ht]; simp
  refine ⟨hcourse, hpursues, fun h => absurd h hne, ?_, ?_, fun _ _ h => absurd h hne,
    fun fd hfd => ?_, hlost⟩
  · rw [hc, Connector.startInLoop_functors]
    exact hq
  · rw [hc, Connector.startInLoop_threads]
    exact hk
  · have := hone fd hfd
    rw [hs] at this
    cases this

theorem serves_step {a : Act} (h : Serves s) (hok : RetryOk s a) (hst : step s a = some t) :
    Serves t := by
  have hsf : s.connector.failed = none := by
    unfold step at hst
    split at hst
    · cases hst
    · next hf => simpa using hf
  replace h := h hsf
  cases a with
  | connector a => exact fun hf => serveInv_connector h hok hst hf
  | connect =>
    cases step_stepped hst with
    | connect hpc hfree _ =>
      exact fun _ => { h with
        course := course_emit h.course
        pursues := fun hc => pursues_emit (h.pursues hc)
        handed := fun _ _ _ _ => Or.inr (Or.inr rfl) }
  | start =>
    cases step_stepped hst with
    | start hcn hpc _ =>
      have hc := Connector.onCourse_stepped (a := .start) h.course h.pursues trivial (.start hpc)
      exact serves_startInLoop hc rfl h.queue h.threads (fun fd hfd => (h.one fd hfd).1) h.lost
  | restart =>
    cases step_stepped hst with
    | restart hr hpc _ =>
      have hc := Connector.onCourse_stepped (a := .restart) h.course h.pursues trivial (.restart hpc)
      refine serves_startInLoop hc (show s.connector.restart = Connector.startInLoop _ from rfl)
        h.queue h.threads (fun fd hfd => ?_) (by simp)
      have := hfd.symm.trans (h.lost hr)
      cases this
  | disconnect =>
    cases step_stepped hst with
    | disconnect => exact fun _ => { h with handed := nofun }
  | enableRetry =>
    cases step_stepped hst with
    | enableRetry => exact fun _ => { h with }
  | stopFrom k =>
    cases step_stepped hst with
    | stopFrom => exact fun _ => { h with handed := nofun }
  | stop =>
    cases step_stepped hst with
    | stop hfree =>
      refine fun _ => ⟨?_, nofun, h.rests, ?_, h.threads, nofun, h.one, h.lost⟩
      · refine ⟨h.course.attempt, h.course.connected, ?_, h.course.threads, h.course.delay,
          h.course.timers⟩
        show (s.connector.functors.push (.stopInLoop s.numStops)).queue.count _ = s.connector.stale
        rw [Batched.count_push, if_neg (by simp)]
        exact h.course.resets
      · show _ ∉ (s.connector.functors.push (.stopInLoop s.numStops)).queue
        simpa using h.queue
  | stopConnector k =>
    cases step_stepped hst with
    | stopConnector _ n hk =>
      obtain ⟨hcourse, hpursues⟩ :=
        Connector.onCourse_stepped (a := .stopFrom k n) h.course h.pursues trivial (.stopFrom k n) hsf
      refine fun _ => ⟨hcourse, hpursues, h.rests, h.queue, fun j hj => ?_, nofun, h.one, h.lost⟩
      exact (update_eq_some hj).elim (by simp) (h.threads j)
  | queueFrom k =>
    cases step_stepped hst with
    | queueFrom _ n hk =>
      obtain ⟨hcourse, hpursues⟩ :=
        Connector.onCourse_stepped (a := .queueFrom k) h.course h.pursues trivial (.queueFrom k _ hk) hsf
      refine fun _ => ⟨course_emit hcourse, fun hc => pursues_emit (hpursues hc), h.rests, ?_,
        fun j hj => ?_, h.handed, h.one, h.lost⟩
      · show _ ∉ (s.connector.functors.push (.stopInLoop n)).queue
        simpa using h.queue
      · exact (update_eq_some hj).elim (by simp) (h.threads j)
  | removeConnection =>
    cases step_stepped hst with
    | removeConnection hpc hfree hcn =>
      refine fun _ => { h with
        handed := fun hc _ _ _ => Or.inr (Or.inl ?_)
        one := nofun
        lost := fun _ => rfl }
      have hc : s.connect = true := hc
      simp [removeConnection, hok hc, hc]

/-- The connector makes an attempt, or is to make one. -/
def Trying (c : Connector) : Prop :=
  c.pc ≠ .idle ∨ (c.state = .kConnecting ∧ ∃ fd, c.channel = some ⟨fd, true⟩) ∨
    ∃ ms ∈ c.timers, ms ≤ Connector.kMaxRetryDelayMs

/-- **A client that is to be connected is connected or tries to be**, and has one connection at
most. -/
theorem keeps_serving {as : List Act} (hrun : Steps.run (Steps.guarded RetryOk step) init as = some t)
    (hf : t.connector.failed = none) :
    (t.connect = true → t.connector.connect = true →
      t.connection.isSome ∨ t.restarting = true ∨ t.connecting = true ∨ Trying t.connector) ∧
    ∀ fd, t.connection = some fd → t.connector.state = .kConnected ∧ t.connector.pc = .idle ∧
      t.connector.lastSocket = some fd := by
  have h : ServeInv t := by
    refine Steps.run_invariant (I := Serves) ?_ ?_ hrun hf
    · intro s a u h hs
      obtain ⟨hok, hs⟩ := Steps.guarded_eq_some.mp hs
      exact serves_step h hok hs
    · intro _
      refine ⟨⟨?_, ?_, rfl, ?_, by decide, ?_⟩, nofun, ?_, ?_, ?_, ?_, ?_, ?_⟩ <;>
        simp [init, Connector.init, Connector.Rests, Batched.queue, Batched.empty]
  refine ⟨fun h1 h2 => ?_, fun fd hfd => ?_⟩
  · cases h.pursues h2 with
    | busy hpc => exact Or.inr (Or.inr (Or.inr (Or.inl hpc)))
    | attempt fd hs hc => exact Or.inr (Or.inr (Or.inr (Or.inr (Or.inl ⟨hs, fd, hc⟩))))
    | timer ms hms hle => exact Or.inr (Or.inr (Or.inr (Or.inr (Or.inr ⟨ms, hms, hle⟩))))
    | functor hq => exact absurd hq h.queue
    | thread k hk => exact absurd hk (h.threads k)
    | done fd hs hl hm =>
      by_cases hpc : t.connector.pc = .idle
      · exact (h.handed h1 h2 hs hpc).imp_right fun h => h.imp_right Or.inl
      · exact Or.inr (Or.inr (Or.inr (Or.inl hpc)))
  · obtain ⟨hs, hl, hpc⟩ := h.one fd hfd
    exact ⟨hs, hpc, hl⟩

/-- The connection is lost, and the next attempt is refused. -/
def lostRefused : List Act :=
  [.enableRetry, .connect, .start] ++ connects ++ [.connector .doPendingFunctors, .connector .runFunctor,
    .removeConnection, .restart, .connector (.resume .none), .connector (.resume .ECONNREFUSED),
    .connector (.resume .none), .connector (.resume .none)]

theorem keeps_serving_lostRefused : ∃ t, Steps.run (Steps.guarded RetryOk step) init lostRefused = some t ∧
    t.connection = none ∧ t.connector.timers = [500] ∧
      (t.connection.isSome ∨ t.restarting = true ∨ t.connecting = true ∨ Trying t.connector) := by
  have hobs : (Steps.run (Steps.guarded RetryOk step) init lostRefused).any (fun t => decide
      (t.connection = none ∧ t.connector.timers = [500] ∧ t.connector.failed = none ∧
        t.connect = true ∧ t.connector.connect = true)) = true := by decide
  obtain ⟨t, ht, hobs⟩ := (Option.any_eq_true _ _).mp hobs
  obtain ⟨h1, h2, hf, h3, h4⟩ := of_decide_eq_true hobs
  exact ⟨t, ht, h1, h2, (keeps_serving ht hf).1 h3 h4⟩

end TcpClient

end SimpleNet
