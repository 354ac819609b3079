import SimpleNet.Lib.Batch
import SimpleNet.Lib.Run
import Mathlib.Logic.Function.Basic

/-!
# A connector

`Connector` on the thread of its loop, with the functors of the loop and the retry timers it has
scheduled.  `connect_` is also written by `start()` and `stop()` on other threads, so the code
after each test of `connect_` is a step of its own: `pc` says where the loop's thread is.  At
`idle` it is in code of the user or of the loop, which may call `start`, `stop` and `restart`.

A descriptor is known by the order of its creation by `connect()`.  `trace` records, oldest
first, what the run did; `lastSocket` is history as well: the descriptor of the last `connect()`
since `restart()`.
-/

namespace SimpleNet

open Function (update)

inductive ConnectorState
  | kDisconnected | kConnecting | kConnected
  deriving DecidableEq, Repr

/-- The values of `savedErrno` that `connect()` knows. -/
inductive ConnectErrno
  | none | EINPROGRESS | EINTR | EISCONN
  | EAGAIN | EADDRINUSE | EADDRNOTAVAIL | ECONNREFUSED | ENETUNREACH
  | EACCES | EPERM | EAFNOSUPPORT | EALREADY | EBADF | EFAULT | ENOTSOCK
  | other
  deriving DecidableEq, Repr

/-- The cases of the `switch` in `connect()`. -/
inductive ConnectCase
  | connecting | retry | close
  deriving DecidableEq, Repr

def ConnectErrno.case : ConnectErrno → ConnectCase
  | .none | .EINPROGRESS | .EINTR | .EISCONN => .connecting
  | .EAGAIN | .EADDRINUSE | .EADDRNOTAVAIL | .ECONNREFUSED | .ENETUNREACH => .retry
  | .EACCES | .EPERM | .EAFNOSUPPORT | .EALREADY | .EBADF | .EFAULT | .ENOTSOCK => .close
  | .other => .close

/-- `channel_`: its descriptor, and whether it is in the poller. -/
structure ConnectorChannel where
  fd : Nat
  registered : Bool
  deriving DecidableEq, Repr

/-- The functors of a connector; calls of `stop` are numbered. -/
inductive ConnectorTask
  | startInLoop
  | stopInLoop (n : Nat)
  | resetChannel
  deriving DecidableEq, Repr

inductive ConnectorEvent
  /-- `TcpClient::connect()` is called -/
  | called
  /-- the `n`-th call of `stop` has returned -/
  | stop (n : Nat)
  /-- `start()` sets `connect_` -/
  | start
  | stopInLoop (n : Nat)
  /-- `connect()` has created a descriptor -/
  | connect (fd : Nat)
  /-- the descriptor has become connected -/
  | connected (fd : Nat)
  | close (fd : Nat)
  | newConnectionCallback (fd : Nat)
  /-- a retry timer is scheduled -/
  | runAfter (ms : Nat)
  /-- `resetChannel()` has destroyed this channel -/
  | resetChannel (c : Option ConnectorChannel)
  deriving DecidableEq, Repr

/-- Where the thread of the loop is. -/
inductive ConnectorPc
  | idle
  /-- at `if(connect_)` in `startInLoop` -/
  | starting
  /-- before `connect()` -/
  | calling
  /-- at `if(connect_)` in `retry` -/
  | retrying
  /-- before `runAfter` -/
  | scheduling
  /-- at `if(connect_)` in `handleWrite` -/
  | testing (fd : Nat)
  /-- before `newConnectionCallback_` -/
  | handing (fd : Nat)
  deriving DecidableEq, Repr

/-- The assertions of a connector. -/
inductive ConnectorAssert
  /-- `assert(state_ == kDisconnected)` in `startInLoop` -/
  | startInLoop
  /-- `assert(!channel_)` in `connecting` -/
  | connecting
  /-- `assert(state_ == kDisconnected)` in `handleWrite` -/
  | handleWrite
  /-- `channel_` is null where it is used -/
  | null
  deriving DecidableEq, Repr

structure Connector where
  connect : Bool
  state : ConnectorState
  channel : Option ConnectorChannel
  retryDelayMs : Nat
  pc : ConnectorPc
  functors : Batched ConnectorTask
  /-- the delays of the retry timers that have not fired -/
  timers : List Nat
  /-- what another thread has still to queue -/
  threads : Nat → Option ConnectorTask
  numFds : Nat
  lastSocket : Option Nat
  trace : List ConnectorEvent
  failed : Option ConnectorAssert

/-- An entry of a table after one has been written. -/
theorem update_eq_some {α : Type} {f : Nat → Option α} {k j : Nat} {o : Option α} {x : α}
    (h : update f k o j = some x) : o = some x ∨ f j = some x := by
  rw [Function.update_apply] at h
  split at h
  · exact Or.inl h
  · exact Or.inr h

namespace Connector

def kInitRetryDelayMs : Nat := 500

def kMaxRetryDelayMs : Nat := 30 * 1000

def init : Connector where
  connect := false
  state := .kDisconnected
  channel := none
  retryDelayMs := kInitRetryDelayMs
  pc := .idle
  functors := .empty
  timers := []
  threads _ := none
  numFds := 0
  lastSocket := none
  trace := []
  failed := none

def emit (s : Connector) (e : ConnectorEvent) : Connector := { s with trace := s.trace ++ [e] }

def queueInLoop (s : Connector) (f : ConnectorTask) : Connector :=
  { s with functors := s.functors.push f }

/-- `startInLoop` up to its test of `connect_`. -/
def startInLoop (s : Connector) : Connector :=
  if s.state = .kDisconnected then { s with pc := .starting }
  else { s with failed := some .startInLoop }

section

variable (s : Connector) (e : ConnectorEvent)

@[simp] theorem emit_connect : (s.emit e).connect = s.connect := rfl

@[simp] theorem emit_functors : (s.emit e).functors = s.functors := rfl

@[simp] theorem emit_threads : (s.emit e).threads = s.threads := rfl

@[simp] theorem emit_trace : (s.emit e).trace = s.trace ++ [e] := rfl

@[simp] theorem startInLoop_connect : s.startInLoop.connect = s.connect := by
  unfold startInLoop
  split <;> rfl

@[simp] theorem startInLoop_functors : s.startInLoop.functors = s.functors := by
  unfold startInLoop
  split <;> rfl

@[simp] theorem startInLoop_threads : s.startInLoop.threads = s.threads := by
  unfold startInLoop
  split <;> rfl

@[simp] theorem startInLoop_trace : s.startInLoop.trace = s.trace := by
  unfold startInLoop
  split <;> rfl

end

/-- `start()` on the loop's thread. -/
def start (s : Connector) : Connector := ({ s with connect := true }.emit .start).startInLoop

/-- `stop()` on the loop's thread. -/
def stop (s : Connector) (n : Nat) : Connector :=
  { s with connect := false }.queueInLoop (.stopInLoop n)

def restart (s : Connector) : Connector :=
  { s with
    state := .kDisconnected
    retryDelayMs := kInitRetryDelayMs
    connect := true
    lastSocket := none }.startInLoop

def connecting (s : Connector) (sockfd : Nat) : Connector :=
  let s := { s with state := .kConnecting, pc := .idle }
  if s.channel.isNone then { s with channel := some ⟨sockfd, true⟩ }
  else { s with failed := some .connecting }

/-- `retry` up to its test of `connect_`. -/
def retry (s : Connector) (sockfd : Nat) : Connector :=
  { s.emit (.close sockfd) with state := .kDisconnected, pc := .retrying }

/-- `retry` after its test. -/
def runAfter (s : Connector) : Connector :=
  { s.emit (.runAfter s.retryDelayMs) with
    timers := s.timers ++ [s.retryDelayMs]
    retryDelayMs := min (s.retryDelayMs * 2) kMaxRetryDelayMs
    pc := .idle }

/-- `connect()`, where `connect(2)` sets `savedErrno`. -/
def connectSocket (s : Connector) (savedErrno : ConnectErrno) : Connector :=
  let sockfd := s.numFds
  let s := { s.emit (.connect sockfd) with numFds := s.numFds + 1, lastSocket := some sockfd }
  match savedErrno.case with
  | .connecting => s.connecting sockfd
  | .retry => s.retry sockfd
  | .close => { s.emit (.close sockfd) with pc := .idle }

/-- `removeAndResetChannel`; what follows gets the descriptor. -/
def removeAndResetChannel (s : Connector) (f : Connector → Nat → Connector) : Connector :=
  match s.channel with
  | some c => f ({ s with channel := some { c with registered := false } }.queueInLoop .resetChannel) c.fd
  | none => { s with failed := some .null }

theorem removeAndResetChannel_some {s : Connector} {c : ConnectorChannel} (hc : s.channel = some c)
    {f : Connector → Nat → Connector} : s.removeAndResetChannel f =
      f ({ s with channel := some { c with registered := false } }.queueInLoop .resetChannel) c.fd := by
  rw [removeAndResetChannel, hc]

theorem removeAndResetChannel_none {s : Connector} (hc : s.channel = none)
    {f : Connector → Nat → Connector} :
    s.removeAndResetChannel f = { s with failed := some .null } := by
  rw [removeAndResetChannel, hc]

def resetChannel (s : Connector) : Connector :=
  { s.emit (.resetChannel s.channel) with channel := none }

/-- `handleWrite` up to its test of `connect_`: `err` is `SO_ERROR`, and the descriptor may be
connected to itself. -/
def handleWrite (s : Connector) (err selfConnect : Bool) : Connector :=
  if s.state = .kConnecting then
    s.removeAndResetChannel fun s sockfd =>
      if err then s.retry sockfd
      else if selfConnect then s.retry sockfd
      else { s.emit (.connected sockfd) with state := .kConnected, pc := .testing sockfd }
  else if s.state = .kDisconnected then s
  else { s with failed := some .handleWrite }

def handleError (s : Connector) : Connector :=
  if s.state = .kConnecting then s.removeAndResetChannel retry else s

def stopInLoop (s : Connector) (n : Nat) : Connector :=
  let s := s.emit (.stopInLoop n)
  if s.state = .kConnecting then
    { s with state := .kDisconnected }.removeAndResetChannel retry
  else s

/-- `Channel::handleEvent` with `POLLERR` or `POLLOUT` or both.  After `handleError` has started
a retry, `handleWrite` does nothing, whatever the retry goes on with. -/
def handleEvent (s : Connector) (pollErr pollOut err selfConnect : Bool) : Connector :=
  let s := if pollErr then s.handleError else s
  if pollOut then s.handleWrite err selfConnect else s

/-- A functor. -/
def runTask (s : Connector) : ConnectorTask → Connector
  | .startInLoop => s.startInLoop
  | .stopInLoop n => s.stopInLoop n
  | .resetChannel => s.resetChannel

/-- The thread of the loop goes on with what it is in. -/
def resume (s : Connector) (savedErrno : ConnectErrno) : Connector :=
  match s.pc with
  | .idle => s
  | .starting => { s with pc := if s.connect then .calling else .idle }
  | .calling => s.connectSocket savedErrno
  | .retrying => { s with pc := if s.connect then .scheduling else .idle }
  | .scheduling => s.runAfter
  | .testing sockfd =>
    if s.connect then { s with pc := .handing sockfd } else { s.emit (.close sockfd) with pc := .idle }
  | .handing sockfd => { s.emit (.newConnectionCallback sockfd) with pc := .idle }

inductive Act
  | start
  | stop (n : Nat)
  | restart
  /-- `start()` and `stop()` on another thread, up to `queueInLoop` -/
  | startFrom (k : Nat)
  | stopFrom (k n : Nat)
  /-- their `queueInLoop` -/
  | queueFrom (k : Nat)
  | resume (savedErrno : ConnectErrno)
  | handleEvent (pollErr pollOut err selfConnect : Bool)
  | timer (ms : Nat)
  | doPendingFunctors
  | runFunctor
  deriving DecidableEq, Repr

def step (s : Connector) (a : Act) : Option Connector :=
  if s.failed.isSome then none else
  match a with
  | .start => if s.pc = .idle then some s.start else none
  | .stop n => if s.pc = .idle then some (s.stop n) else none
  | .restart => if s.pc = .idle then some s.restart else none
  | .startFrom k =>
    if s.threads k = none then
      some { { s with connect := true }.emit .start with
        threads := update s.threads k (some .startInLoop) }
    else none
  | .stopFrom k n =>
    if s.threads k = none then
      some { s with connect := false, threads := update s.threads k (some (.stopInLoop n)) }
    else none
  | .queueFrom k =>
    match s.threads k with
    | some f => some { s.queueInLoop f with threads := update s.threads k none }
    | none => none
  | .resume savedErrno => if s.pc ≠ .idle then some (s.resume savedErrno) else none
  | .handleEvent pollErr pollOut err selfConnect =>
    -- the channel is in the poller
    if s.pc = .idle ∧ s.functors.rest = [] ∧ s.channel.any (·.registered) then
      some (s.handleEvent pollErr pollOut err selfConnect)
    else none
  | .timer ms =>
    if s.pc = .idle ∧ s.functors.rest = [] ∧ ms ∈ s.timers then
      some { s with timers := s.timers.erase ms }.startInLoop
    else none
  | .doPendingFunctors =>
    if s.pc = .idle ∧ s.functors.rest = [] then some { s with functors := s.functors.swap } else none
  | .runFunctor =>
    match s.functors.rest with
    | f :: _ =>
      if s.pc = .idle then some ({ s with functors := s.functors.tail }.runTask f) else none
    | [] => none

/-! ### The steps -/

/-- What each step does, with what it has tested. -/
inductive Stepped (s : Connector) : Act → Connector → Prop
  | start (hpc : s.pc = .idle) : Stepped s .start s.start
  | stop (n : Nat) (hpc : s.pc = .idle) : Stepped s (.stop n) (s.stop n)
  | restart (hpc : s.pc = .idle) : Stepped s .restart s.restart
  | startFrom (k : Nat) : Stepped s (.startFrom k) { { s with connect := true }.emit .start with
      threads := update s.threads k (some .startInLoop) }
  | stopFrom (k n : Nat) : Stepped s (.stopFrom k n)
      { s with connect := false, threads := update s.threads k (some (.stopInLoop n)) }
  | queueFrom (k : Nat) (f : ConnectorTask) (hf : s.threads k = some f) :
      Stepped s (.queueFrom k) { s.queueInLoop f with threads := update s.threads k none }
  | resume (savedErrno : ConnectErrno) (hpc : s.pc ≠ .idle) :
      Stepped s (.resume savedErrno) (s.resume savedErrno)
  | handleEvent (pollErr pollOut err selfConnect : Bool) (c : ConnectorChannel) (hpc : s.pc = .idle)
      (hr : s.functors.rest = []) (hc : s.channel = some c) : Stepped s (.handleEvent pollErr pollOut err selfConnect)
        (s.handleEvent pollErr pollOut err selfConnect)
  | timer (ms : Nat) (hpc : s.pc = .idle) (hr : s.functors.rest = []) (hms : ms ∈ s.timers) :
      Stepped s (.timer ms) { s with timers := s.timers.erase ms }.startInLoop
  | doPendingFunctors (hpc : s.pc = .idle) (hr : s.functors.rest = []) :
      Stepped s .doPendingFunctors { s with functors := s.functors.swap }
  | runFunctor (f : ConnectorTask) (fs : List ConnectorTask) (hpc : s.pc = .idle)
      (hr : s.functors.rest = f :: fs) :
      Stepped s .runFunctor ({ s with functors := s.functors.tail }.runTask f)

theorem step_stepped {s t : Connector} {a : Act} (hst : step s a = some t) :
    s.failed = none ∧ Stepped s a t := by
  unfold step at hst
  split at hst
  · cases hst
  next hf =>
  refine ⟨by simpa using hf, ?_⟩
  cases a with
  | start =>
    simp only [Option.ite_none_right_eq_some, Option.some.injEq] at hst
    obtain ⟨hpc, rfl⟩ := hst
    exact .start hpc
  | stop n =>
    simp only [Option.ite_none_right_eq_some, Option.some.injEq] at hst
    obtain ⟨hpc, rfl⟩ := hst
    exact .stop n hpc
  | restart =>
    simp only [Option.ite_none_right_eq_some, Option.some.injEq] at hst
    obtain ⟨hpc, rfl⟩ := hst
    exact .restart hpc
  | startFrom k =>
    simp only [Option.ite_none_right_eq_some, Option.some.injEq] at hst
    obtain ⟨-, rfl⟩ := hst
    exact .startFrom k
  | stopFrom k n =>
    simp only [Option.ite_none_right_eq_some, Option.some.injEq] at hst
    obtain ⟨-, rfl⟩ := hst
    exact .stopFrom k n
  | queueFrom k =>
    simp only at hst
    split at hst
    · next f hf =>
      obtain rfl := Option.some.inj hst
      exact .queueFrom k f hf
    · cases hst
  | resume savedErrno =>
    simp only [Option.ite_none_right_eq_some, Option.some.injEq] at hst
    obtain ⟨hpc, rfl⟩ := hst
    exact .resume savedErrno hpc
  | handleEvent pollErr pollOut err selfConnect =>
    simp only [Option.ite_none_right_eq_some, Option.some.injEq] at hst
    obtain ⟨⟨hpc, hr, hany⟩, rfl⟩ := hst
    obtain ⟨c, hc, -⟩ := (Option.any_eq_true _ _).mp hany
    exact .handleEvent pollErr pollOut err selfConnect c hpc hr hc
  | timer ms =>
    simp only [Option.ite_none_right_eq_some, Option.some.injEq] at hst
    obtain ⟨⟨hpc, hr, hms⟩, rfl⟩ := hst
    exact .timer ms hpc hr hms
  | doPendingFunctors =>
    simp only [Option.ite_none_right_eq_some, Option.some.injEq] at hst
    obtain ⟨⟨hpc, hr⟩, rfl⟩ := hst
    exact .doPendingFunctors hpc hr
  | runFunctor =>
    simp only at hst
    split at hst
    · next f fs hr =>
      simp only [Option.ite_none_right_eq_some, Option.some.injEq] at hst
      obtain ⟨hpc, rfl⟩ := hst
      exact .runFunctor f fs hpc hr
    · cases hst

end Connector

end SimpleNet
