import SimpleNet.Client.Connector

/-!
# A client

`TcpClient` over its connector.  It has a flag `connect_` of its own, which any thread may write:
`stop()` on another thread writes this one, then the connector's, then queues `stopInLoop`.  On
the loop's thread `connect()` writes this one some time before `start()` writes the other, and
`removeConnection` tests this one some time before `restart()` sets the other.  Each of these is a
step.  `stop()` on the loop's thread is one: in between, another thread could only clear a flag.

The connection is known by its descriptor.  It may be closed at any time; what else happens to it
is not here.
-/

namespace SimpleNet

open Function (update)

structure TcpClient where
  connector : Connector
  retry : Bool
  connect : Bool
  connection : Option Nat
  /-- `connect()` has written `connect` and is about to call the connector's `start()` -/
  connecting : Bool
  /-- `removeConnection` has passed its test and is about to call `restart()` -/
  restarting : Bool
  /-- the call of `stop()` in which another thread has written `connect` only -/
  stopping : Nat → Option Nat
  /-- how many calls of `stop()` have begun -/
  numStops : Nat

/-- The steps that the loop's thread takes on its own. -/
def Connector.Act.ofLoop : Connector.Act → Bool
  | .resume _ | .handleEvent _ _ _ _ | .timer _ | .doPendingFunctors | .runFunctor => true
  | .start | .stop _ | .restart | .startFrom _ | .stopFrom _ _ | .queueFrom _ => false

/-! ### What the loop's thread does on its own -/

/-- A test of `connect_` has been passed. -/
def ConnectorPc.passed : ConnectorPc → Bool
  | .calling | .scheduling | .handing _ => true
  | .idle | .starting | .retrying | .testing _ => false

/-- What follows a test of `connect_`. -/
def ConnectorEvent.attempt : ConnectorEvent → Bool
  | .connect _ | .runAfter _ | .newConnectionCallback _ => true
  | .called | .stop _ | .start | .stopInLoop _ | .connected _ | .close _ | .resetChannel _ => false

/-- How a socket and its channel end. -/
def ConnectorEvent.ending : ConnectorEvent → Bool
  | .connected _ | .close _ | .resetChannel _ => true
  | .called | .stop _ | .start | .stopInLoop _ | .connect _ | .runAfter _
  | .newConnectionCallback _ => false

theorem ConnectorEvent.attempt_of_ending {e : ConnectorEvent} (h : e.ending = true) :
    e.attempt = false := by
  cases e with
  | connected fd | close fd | resetChannel c => rfl
  | called | stop n | start | stopInLoop n | connect fd | runAfter ms | newConnectionCallback fd => cases h

namespace Connector

variable {s t u : Connector}

/-- At most a socket and its channel come to their end. -/
structure Ends (s t : Connector) : Prop where
  connect : t.connect = s.connect
  threads : t.threads = s.threads
  queue : ∀ f ∈ t.functors.queue, f ∈ s.functors.queue ∨ f = .resetChannel
  trace : ∃ l, t.trace = s.trace ++ l ∧ ∀ e ∈ l, e.ending = true
  pc : t.pc.passed = true → t.pc = s.pc

/-- A step of the loop's thread: `connect_` stays as it is, and is true when a test passes. -/
structure LoopStep (s t : Connector) : Prop where
  connect : t.connect = s.connect
  threads : t.threads = s.threads
  queue : ∀ f ∈ t.functors.queue, f ∈ s.functors.queue ∨ f = .resetChannel
  trace : ∃ l, t.trace = s.trace ++ l ∧ ∀ e ∈ l, e.ending = true ∨
    e.attempt = true ∧ s.pc.passed = true ∨
      ∃ n, e = .stopInLoop n ∧ .stopInLoop n ∈ s.functors.queue ∧ s.pc = .idle
  pc : t.pc.passed = true → s.connect = true

theorem Ends.refl (s : Connector) : Ends s s :=
  ⟨rfl, rfl, fun _ => Or.inl, ⟨[], (List.append_nil _).symm, by simp⟩, fun _ => rfl⟩

theorem Ends.trans (h : Ends s t) (g : Ends t u) : Ends s u where
  connect := g.connect.trans h.connect
  threads := g.threads.trans h.threads
  queue f hf := by
    rcases g.queue f hf with hf | hf
    · exact h.queue f hf
    · exact Or.inr hf
  trace := by
    obtain ⟨l, hl, hle⟩ := h.trace
    obtain ⟨l', hl', hle'⟩ := g.trace
    refine ⟨l ++ l', by rw [hl', hl, List.append_assoc], ?_⟩
    intro e he
    rcases List.mem_append.mp he with he | he
    · exact hle e he
    · exact hle' e he
  pc hp := by
    have hu := g.pc hp
    rw [hu] at hp ⊢
    exact h.pc hp

theorem Ends.loopStep (h : Ends s t) (hpc : s.pc = .idle) : LoopStep s t where
  connect := h.connect
  threads := h.threads
  queue := h.queue
  trace := by
    obtain ⟨l, hl, hle⟩ := h.trace
    exact ⟨l, hl, fun e he => Or.inl (hle e he)⟩
  pc hp := by
    rw [h.pc hp, hpc] at hp
    cases hp

theorem ends_startInLoop (s : Connector) : Ends s s.startInLoop := by
  refine ⟨by simp, by simp, fun f hf => Or.inl (by simpa using hf), ⟨[], by simp, by simp⟩, ?_⟩
  intro hp
  unfold startInLoop at hp ⊢
  split at hp
  · cases hp
  · next hs => rw [if_neg hs]

theorem ends_retry (s : Connector) (fd : Nat) : Ends s (s.retry fd) :=
  ⟨rfl, rfl, fun _ => Or.inl, ⟨[.close fd], rfl, by simp [ConnectorEvent.ending]⟩,
    by simp [retry, ConnectorPc.passed]⟩

theorem ends_removeAndResetChannel (x : ConnectorState) {f : Connector → Nat → Connector}
    (hf : ∀ u fd, Ends u (f u fd)) : Ends s ({ s with state := x }.removeAndResetChannel f) := by
  obtain hc | ⟨c, hc⟩ := Option.eq_none_or_eq_some s.channel
  · rw [removeAndResetChannel_none (s := { s with state := x }) hc]
    exact { Ends.refl s with }
  · rw [removeAndResetChannel_some (s := { s with state := x }) hc]
    refine Ends.trans ?_ (hf _ _)
    refine { Ends.refl s with queue := ?_ }
    intro g hg
    rw [queueInLoop, Batched.queue_push] at hg
    simpa using hg

theorem ends_handleError (s : Connector) : Ends s s.handleError := by
  unfold handleError
  split
  · exact ends_removeAndResetChannel s.state ends_retry
  · exact Ends.refl s

theorem ends_handleWrite (s : Connector) (err selfConnect : Bool) :
    Ends s (s.handleWrite err selfConnect) := by
  unfold handleWrite
  split
  · apply ends_removeAndResetChannel s.state
    intro u fd
    split
    · exact ends_retry u fd
    · split
      · exact ends_retry u fd
      · exact ⟨rfl, rfl, fun _ => Or.inl, ⟨[.connected fd], rfl, by simp [ConnectorEvent.ending]⟩,
          by simp [ConnectorPc.passed]⟩
  · split
    · exact Ends.refl s
    · exact { Ends.refl s with }

theorem ends_handleEvent (s : Connector) (pollErr pollOut err selfConnect : Bool) :
    Ends s (s.handleEvent pollErr pollOut err selfConnect) := by
  unfold handleEvent
  cases pollErr <;> cases pollOut
  · exact Ends.refl s
  · exact ends_handleWrite s err selfConnect
  · exact ends_handleError s
  · exact (ends_handleError s).trans (ends_handleWrite _ err selfConnect)

/-- The first functor is taken off the queue and runs. -/
theorem loopStep_runTask {f : ConnectorTask} {fs : List ConnectorTask} (hr : s.functors.rest = f :: fs)
    (hpc : s.pc = .idle) : LoopStep s ({ s with functors := s.functors.tail }.runTask f) := by
  have hpop : Ends s { s with functors := s.functors.tail } :=
    { Ends.refl s with queue := fun g hg => Or.inl (Batched.mem_queue_of_tail hg) }
  cases f with
  | startInLoop => exact (hpop.trans (ends_startInLoop _)).loopStep hpc
  | resetChannel =>
    refine (hpop.trans (u := Connector.resetChannel _) ?_).loopStep hpc
    exact ⟨rfl, rfl, fun _ => Or.inl, ⟨[_], rfl, by simp [ConnectorEvent.ending]⟩, fun _ => rfl⟩
  | stopInLoop n =>
    have hends : Ends ({ s with functors := s.functors.tail }.emit (.stopInLoop n))
        (stopInLoop { s with functors := s.functors.tail } n) := by
      unfold stopInLoop
      simp only
      split
      · exact ends_removeAndResetChannel .kDisconnected ends_retry
      · exact Ends.refl _
    obtain ⟨l, hl, hle⟩ := hends.trace
    refine ⟨hends.connect, hends.threads, ?_, ⟨.stopInLoop n :: l, ?_, ?_⟩, ?_⟩
    · intro g hg
      rcases hends.queue g hg with hg | hg
      · exact Or.inl (Batched.mem_queue_of_tail hg)
      · exact Or.inr hg
    · rw [List.append_cons]
      exact hl
    · intro e he
      rcases List.mem_cons.mp he with rfl | he
      · exact Or.inr (Or.inr ⟨n, rfl, Batched.mem_queue_of_rest hr, hpc⟩)
      · exact Or.inl (hle e he)
    · intro hp
      have := hends.pc hp
      rw [show (runTask { s with functors := s.functors.tail } (.stopInLoop n)).pc = .idle from
        this.trans hpc] at hp
      cases hp

theorem loopStep_connectSocket (hpc : s.pc = .calling) (savedErrno : ConnectErrno) :
    LoopStep s (s.connectSocket savedErrno) := by
  have hp : s.pc.passed = true := by rw [hpc]; rfl
  have hconnect : ∀ e ∈ [.connect s.numFds], ConnectorEvent.attempt e = true := by
    simp [ConnectorEvent.attempt]
  have hclose : ∀ e ∈ [.connect s.numFds, .close s.numFds], ConnectorEvent.ending e = true ∨
      ConnectorEvent.attempt e = true := by
    simp [ConnectorEvent.attempt, ConnectorEvent.ending]
  have htrace : (s.trace ++ [.connect s.numFds]) ++ [.close s.numFds] =
      s.trace ++ [.connect s.numFds, .close s.numFds] := List.append_assoc _ _ _
  unfold connectSocket
  simp only
  split
  · unfold connecting
    simp only
    split
    all_goals
      exact ⟨rfl, rfl, fun _ => Or.inl, ⟨_, rfl, fun e he => Or.inr (Or.inl ⟨hconnect e he, hp⟩)⟩,
        by simp [ConnectorPc.passed]⟩
  · exact ⟨rfl, rfl, fun _ => Or.inl, ⟨_, htrace, fun e he => (hclose e he).imp_right fun h =>
      Or.inl ⟨h, hp⟩⟩, by simp [retry, ConnectorPc.passed]⟩
  · exact ⟨rfl, rfl, fun _ => Or.inl, ⟨_, htrace, fun e he => (hclose e he).imp_right fun h =>
      Or.inl ⟨h, hp⟩⟩, by simp [ConnectorPc.passed]⟩

theorem loopStep_resume (savedErrno : ConnectErrno) (hpc : s.pc ≠ .idle) :
    LoopStep s (s.resume savedErrno) := by
  have hrefl := Ends.refl s
  have htrace : ∀ e : ConnectorEvent, e.ending = true ∨ e.attempt = true ∧ s.pc.passed = true → ∀ e' ∈ [e],
      e'.ending = true ∨ e'.attempt = true ∧ s.pc.passed = true ∨
        ∃ n, e' = .stopInLoop n ∧ .stopInLoop n ∈ s.functors.queue ∧ s.pc = .idle := by
    intro e he e' he'
    rw [List.mem_singleton.mp he']
    exact he.imp_right Or.inl
  unfold resume
  split
  · contradiction
  · refine ⟨rfl, rfl, hrefl.queue, ⟨[], (List.append_nil _).symm, by simp⟩, ?_⟩
    intro hp
    by_contra hc
    simp [hc, ConnectorPc.passed] at hp
  · next hpc => exact loopStep_connectSocket hpc savedErrno
  · refine ⟨rfl, rfl, hrefl.queue, ⟨[], (List.append_nil _).symm, by simp⟩, ?_⟩
    intro hp
    by_contra hc
    simp [hc, ConnectorPc.passed] at hp
  · next hpc =>
    exact ⟨rfl, rfl, hrefl.queue, ⟨_, rfl, htrace _ (Or.inr ⟨rfl, by rw [hpc]; rfl⟩)⟩,
      by simp [runAfter, ConnectorPc.passed]⟩
  · split
    · next hc => exact ⟨rfl, rfl, hrefl.queue, ⟨[], (List.append_nil _).symm, by simp⟩, fun _ => hc⟩
    · exact ⟨rfl, rfl, hrefl.queue, ⟨_, rfl, htrace _ (Or.inl rfl)⟩, by simp [ConnectorPc.passed]⟩
  · next hpc =>
    exact ⟨rfl, rfl, hrefl.queue, ⟨_, rfl, htrace _ (Or.inr ⟨rfl, by rw [hpc]; rfl⟩)⟩,
      by simp [ConnectorPc.passed]⟩

/-- **A step of the loop's thread** is one. -/
theorem loopStep_stepped {a : Act} (ha : a.ofLoop = true) (hst : Stepped s a t) : LoopStep s t := by
  cases hst with
  | start hpc | stop n hpc | restart hpc | startFrom k | stopFrom k n | queueFrom k f hf => cases ha
  | resume savedErrno hpc => exact loopStep_resume savedErrno hpc
  | handleEvent pollErr pollOut err selfConnect c hpc hr hc =>
    exact (ends_handleEvent s pollErr pollOut err selfConnect).loopStep hpc
  | timer ms hpc =>
    have hends : Ends s { s with timers := s.timers.erase ms } := { Ends.refl s with }
    exact (hends.trans (ends_startInLoop _)).loopStep hpc
  | doPendingFunctors hpc hr =>
    refine Ends.loopStep { Ends.refl s with queue := fun f hf => Or.inl ?_ } hpc
    rwa [Batched.queue_swap hr] at hf
  | runFunctor f fs hpc hr => exact loopStep_runTask hr hpc

end Connector

namespace TcpClient

def init : TcpClient where
  connector := .init
  retry := false
  connect := true
  connection := none
  connecting := false
  restarting := false
  stopping _ := none
  numStops := 0

def newConnection (s : TcpClient) (sockfd : Nat) : TcpClient := { s with connection := some sockfd }

/-- The loop's thread is not within `connect()` or `removeConnection`. -/
def Free (s : TcpClient) : Prop := s.connecting = false ∧ s.restarting = false

instance (s : TcpClient) : Decidable s.Free := inferInstanceAs (Decidable (_ ∧ _))

/-- `connect()` up to `start()`. -/
def callConnect (s : TcpClient) : TcpClient :=
  { s with connect := true, connector := s.connector.emit .called, connecting := true }

/-- `removeConnection` up to `restart()`. -/
def removeConnection (s : TcpClient) : TcpClient :=
  { s with connection := none, restarting := s.retry && s.connect }

inductive Act
  | connect
  /-- `connect()` calls the connector's `start()` -/
  | start
  | disconnect
  | stop
  | enableRetry
  /-- `stop()` on another thread: its two writes and its `queueInLoop` -/
  | stopFrom (k : Nat)
  | stopConnector (k : Nat)
  | queueFrom (k : Nat)
  /-- the connection is closed -/
  | removeConnection
  | restart
  | connector (a : Connector.Act)
  deriving DecidableEq, Repr

def step (s : TcpClient) (a : Act) : Option TcpClient :=
  if s.connector.failed.isSome then none else
  match a with
  | .connect => if s.connector.pc = .idle ∧ s.Free then some s.callConnect else none
  | .start =>
    if s.connecting then
      (s.connector.step .start).map fun c => { s with connector := c, connecting := false }
    else none
  | .disconnect => some { s with connect := false }
  | .stop =>
    if s.Free then
      (s.connector.step (.stop s.numStops)).map fun c =>
        { s with connect := false, connector := c.emit (.stop s.numStops), numStops := s.numStops + 1 }
    else none
  | .enableRetry => some { s with retry := true }
  | .stopFrom k =>
    if s.stopping k = none ∧ s.connector.threads k = none then
      some { s with
        connect := false
        stopping := update s.stopping k (some s.numStops)
        numStops := s.numStops + 1 }
    else none
  | .stopConnector k =>
    match s.stopping k with
    | some n => (s.connector.step (.stopFrom k n)).map fun c =>
        { s with connector := c, stopping := update s.stopping k none }
    | none => none
  | .queueFrom k =>
    match s.connector.threads k with
    | some (.stopInLoop n) => (s.connector.step (.queueFrom k)).map fun c =>
        { s with connector := c.emit (.stop n) }
    | _ => none
  | .removeConnection =>
    if s.connector.pc = .idle ∧ s.Free ∧ s.connection.isSome then some s.removeConnection
    else none
  | .restart =>
    if s.restarting then
      (s.connector.step .restart).map fun c => { s with connector := c, restarting := false }
    else none
  | .connector a =>
    if a.ofLoop ∧ s.Free then
      (s.connector.step a).map fun c =>
        match s.connector.pc with
        | .handing sockfd => { s with connector := c }.newConnection sockfd
        | _ => { s with connector := c }
    else none

/-- The steps with their guards. -/
inductive Stepped (s : TcpClient) : Act → TcpClient → Prop
  | connect (hpc : s.connector.pc = .idle) (hfree : s.Free) (hf : s.connector.failed = none) :
      Stepped s .connect s.callConnect
  | start (hcn : s.connecting = true) (hpc : s.connector.pc = .idle)
      (hf : s.connector.failed = none) :
      Stepped s .start { s with connector := s.connector.start, connecting := false }
  | disconnect : Stepped s .disconnect { s with connect := false }
  | stop (hfree : s.Free) : Stepped s .stop { s with
      connect := false
      connector := (s.connector.stop s.numStops).emit (.stop s.numStops)
      numStops := s.numStops + 1 }
  | enableRetry : Stepped s .enableRetry { s with retry := true }
  | stopFrom (k : Nat) : Stepped s (.stopFrom k) { s with
      connect := false
      stopping := update s.stopping k (some s.numStops)
      numStops := s.numStops + 1 }
  | stopConnector (k n : Nat) (hk : s.stopping k = some n) : Stepped s (.stopConnector k) { s with
      connector := { s.connector with
        connect := false
        threads := update s.connector.threads k (some (.stopInLoop n)) }
      stopping := update s.stopping k none }
  | queueFrom (k n : Nat) (hk : s.connector.threads k = some (.stopInLoop n)) :
      Stepped s (.queueFrom k) { s with
        connector := { s.connector.queueInLoop (.stopInLoop n) with
          threads := update s.connector.threads k none }.emit (.stop n) }
  | removeConnection (hpc : s.connector.pc = .idle) (hfree : s.Free)
      (hc : s.connection.isSome = true) : Stepped s .removeConnection s.removeConnection
  | restart (hr : s.restarting = true) (hpc : s.connector.pc = .idle)
      (hf : s.connector.failed = none) :
      Stepped s .restart { s with connector := s.connector.restart, restarting := false }
  | connector (a : Connector.Act) (c : Connector) (connection : Option Nat)
      (ha : a.ofLoop = true) (hfree : s.Free) (hc : s.connector.step a = some c) :
      Stepped s (.connector a) { s with connector := c, connection := connection }

variable {s t : TcpClient}

theorem step_stepped {a : Act} (hst : step s a = some t) : Stepped s a t := by
  unfold step at hst
  split at hst
  · cases hst
  next hf =>
  cases a with
  | connect =>
    simp only [Option.ite_none_right_eq_some, Option.some.injEq] at hst
    obtain ⟨⟨hpc, hfree⟩, rfl⟩ := hst
    exact .connect hpc hfree (by simpa using hf)
  | start =>
    simp only [Option.ite_none_right_eq_some, Option.map_eq_some_iff] at hst
    obtain ⟨hcn, c, hc, rfl⟩ := hst
    obtain ⟨hf, hc⟩ := Connector.step_stepped hc
    cases hc with
    | start hpc => exact .start hcn hpc hf
  | disconnect =>
    obtain rfl := Option.some.inj hst
    exact .disconnect
  | stop =>
    simp only [Option.ite_none_right_eq_some, Option.map_eq_some_iff] at hst
    obtain ⟨hfree, c, hc, rfl⟩ := hst
    cases (Connector.step_stepped hc).2 with
    | stop n hpc => exact .stop hfree
  | enableRetry =>
    obtain rfl := Option.some.inj hst
    exact .enableRetry
  | stopFrom k =>
    simp only [Option.ite_none_right_eq_some, Option.some.injEq] at hst
    obtain ⟨-, rfl⟩ := hst
    exact .stopFrom k
  | stopConnector k =>
    simp only at hst
    split at hst
    · next n hn =>
      obtain ⟨c, hc, rfl⟩ := Option.map_eq_some_iff.mp hst
      cases (Connector.step_stepped hc).2 with
      | stopFrom k n => exact .stopConnector k n hn
    · cases hst
  | queueFrom k =>
    simp only at hst
    split at hst
    · next n hn =>
      obtain ⟨c, hc, rfl⟩ := Option.map_eq_some_iff.mp hst
      cases (Connector.step_stepped hc).2 with
      | queueFrom k f hf =>
        obtain rfl := Option.some.inj (hf.symm.trans hn)
        exact .queueFrom k n hn
    · cases hst
  | removeConnection =>
    simp only [Option.ite_none_right_eq_some, Option.some.injEq] at hst
    obtain ⟨⟨hpc, hfree, hc⟩, rfl⟩ := hst
    exact .removeConnection hpc hfree hc
  | restart =>
    simp only [Option.ite_none_right_eq_some, Option.map_eq_some_iff] at hst
    obtain ⟨hr, c, hc, rfl⟩ := hst
    obtain ⟨hf, hc⟩ := Connector.step_stepped hc
    cases hc with
    | restart hpc => exact .restart hr hpc hf
  | connector a =>
    simp only [Option.ite_none_right_eq_some, Option.map_eq_some_iff] at hst
    obtain ⟨⟨ha, hfree⟩, c, hc, rfl⟩ := hst
    split
    · next fd _ => exact .connector a c (some fd) ha hfree hc
    · exact .connector a c s.connection ha hfree hc

/-- The steps of the loop's thread from the test in `startInLoop` to the user's callback. -/
def connects : List Act :=
  [.connector (.resume .none), .connector (.resume .EINPROGRESS),
    .connector (.handleEvent false true false false), .connector (.resume .none),
    .connector (.resume .none)]

end TcpClient

end SimpleNet
