import SimpleNet.Lib.Fifo
import SimpleNet.Reactor.Basic

/-!
# A connection in its loop

`TcpConnection` together with what it runs on: its channel in the loop's poller, the
loop's queue of functors, the code the loop thread is executing, and the calls that
other threads are in the middle of.

The loop thread's control is a stack of frames.  A frame is the rest of a library
function that has called out (`handleClose` before `closeCallback_`, the remaining
tests of `handleEventWithGuard`, the remaining batch of `doPendingFunctors`), or `user`:
code that is not the connection's, a callback or the handler of another channel, which
may call any public function before it returns.  Between two frames the library code
runs without interruption by the loop thread.  A call from another thread is a list of
steps, one for each access to shared data, and any of them may come between two steps
of the loop.

`trace` records, oldest first, what the run did.
-/

namespace SimpleNet

open Function (update)

/-! ### Data -/

/-- `TcpConnection::StateE`. -/
inductive StateE
  | kDisconnected | kConnecting | kConnected | kDisconnecting
  deriving DecidableEq, Repr

/-- `state_ == kConnected || state_ == kDisconnecting`. -/
def StateE.Live (s : StateE) : Prop := s = .kConnected ∨ s = .kDisconnecting

instance (s : StateE) : Decidable s.Live := inferInstanceAs (Decidable (_ ∨ _))

abbrev Errno := Nat

def EWOULDBLOCK : Errno := 11
def EPIPE : Errno := 32
def ECONNRESET : Errno := 104

/-- The outcome of a `::write`: at most `n` bytes are taken, or `-1`. -/
inductive WriteResult
  | wrote (n : Nat)
  | error (errno : Errno)
  deriving DecidableEq, Repr

/-- The outcome of `Buffer::readFd`: the bytes read (none at the end of the stream), or `-1`. -/
inductive ReadResult
  | data (bytes : List UInt8)
  | error (errno : Errno)
  deriving DecidableEq, Repr

/-- A payload.  The tag tells the calls of `send` apart; no code reads it. -/
structure Message where
  tag : Nat
  bytes : List UInt8
  deriving DecidableEq, Repr

/-- What is bound to the connection and run by its loop: queued functors and the
callbacks of its channel.  `other` is a functor of another object. -/
inductive Functor
  | connectEstablished
  | connectDestroyed
  | sendInLoop (m : Message)
  | shutdownInLoop
  | forceCloseInLoop
  | startReadInLoop
  | stopReadInLoop
  | addTimerInLoop
  | writeComplete
  | highWaterMark (len : Nat)
  | handleRead
  | handleWrite
  | handleClose
  | handleError
  | other
  deriving DecidableEq, Repr

/-- The public functions that a user may call, from any thread. -/
inductive Call
  | send (m : Message)
  | shutdown
  | forceClose
  | forceCloseWithDelay
  | startRead
  | stopRead
  deriving DecidableEq, Repr

/-- The functions that write `state_`. -/
inductive Fn
  | connectEstablished | connectDestroyed | shutdown | forceClose | forceCloseWithDelay | handleClose
  deriving DecidableEq, Repr

/-- One access of a public function to shared data. -/
inductive Micro
  | setState (fn : Fn) (st : StateE)
  | runInLoop (f : Functor)
  | queueInLoop (f : Functor)
  deriving DecidableEq, Repr

/-- What is left to do on the loop thread. -/
inductive Frame (ι : Type)
  /-- code of the user or of another object -/
  | user
  /-- `handleClose`: `closeCallback_(guardThis)` -/
  | closeCallback
  /-- `connectDestroyed`: `channel_->remove()` -/
  | remove
  /-- `loop`: one active channel -/
  | handle (c : ι)
  /-- `handleEventWithGuard`: its four tests and its end -/
  | onClose | onError | onRead | onWrite | handled
  /-- `loop`: the end of the active channels -/
  | eventsDone
  /-- `loop`: `doPendingFunctors()` -/
  | doPendingFunctors
  /-- `doPendingFunctors`: the rest of the batch -/
  | functors (batch : List Functor)
  deriving DecidableEq, Repr

/-- What a run does. -/
inductive Effect
  | setState (fn : Fn) (old new : StateE)
  | disableAll
  | connectionCallback (connected : Bool)
  | messageCallback
  | closeCallback
  | handleClose
  /-- `connectDestroyed` has returned -/
  | destroyed
  /-- a call of `sendInLoop`: `state_` at its entry and the outcome of its direct write -/
  | sendInLoop (m : Message) (st : StateE) (direct : Option WriteResult)
  /-- bytes taken by `::write` -/
  | write (bytes : List UInt8)
  | shutdownWrite
  | queued (f : Functor)
  | call (c : Call)
  deriving DecidableEq, Repr

structure TcpConnection (ι β : Type) where
  state : StateE
  reading : Bool
  channel : ι
  inputBuffer : β
  outputBuffer : β
  highWaterMark : Nat
  /-- `highWaterMarkCallback_` is set -/
  highWaterMarkCallback : Bool
  /-- `writeCompleteCallback_` is set -/
  writeCompleteCallback : Bool

structure Conn (ι β : Type) extends TcpConnection ι β, Reactor ι where
  pendingFunctors : List Functor
  /-- timers of `forceCloseWithDelay` that have not fired -/
  timers : Nat
  stack : List (Frame ι)
  /-- what each other thread has left to do of its call -/
  threads : Nat → List Micro
  trace : List Effect
  aborted : Option Assertion

namespace Conn

variable {ι β : Type}

/-- `TcpConnection::TcpConnection`, in a loop that is not handling events. -/
def init [Fifo β UInt8] (r : Reactor ι) (c : ι) (mark : Nat) (hw wc : Bool) : Conn ι β where
  toReactor := r
  state := .kConnecting
  reading := true
  channel := c
  inputBuffer := Fifo.empty
  outputBuffer := Fifo.empty
  highWaterMark := mark
  highWaterMarkCallback := hw
  writeCompleteCallback := wc
  pendingFunctors := []
  timers := 0
  stack := []
  threads _ := []
  trace := []
  aborted := none

/-- The connection's channel. -/
def ch (s : Conn ι β) : Channel := s.chan s.channel

def isWriting (s : Conn ι β) : Bool := s.ch.isWriting
def isReading (s : Conn ι β) : Bool := s.ch.isReading

def emit (s : Conn ι β) (e : Effect) : Conn ι β := { s with trace := s.trace ++ [e] }

def push (s : Conn ι β) (fs : List (Frame ι)) : Conn ι β := { s with stack := fs ++ s.stack }

def setState (s : Conn ι β) (fn : Fn) (st : StateE) : Conn ι β :=
  { s.emit (.setState fn s.state st) with state := st }

/-- `connectionCallback_(shared_from_this())`, which sees `connected()`. -/
def connectionCallback (s : Conn ι β) : Conn ι β :=
  s.emit (.connectionCallback (decide (s.state = .kConnected)))

/-- `EventLoop::queueInLoop`. -/
def queueInLoop (s : Conn ι β) (f : Functor) : Conn ι β :=
  { s.emit (.queued f) with pendingFunctors := s.pendingFunctors ++ [f] }

variable [DecidableEq ι]

/-- An operation on `channel_`. -/
def onChannel (s : Conn ι β) (op : Reactor.Op) : Except Assertion (Conn ι β) :=
  (s.toReactor.exec s.channel op).map fun r => { s with toReactor := r }

variable [Fifo β UInt8]

/-! ### The functions run by the loop -/

/-- `TcpConnection::shutdownInLoop`. -/
def shutdownInLoop (s : Conn ι β) : Conn ι β :=
  if s.isWriting then s else s.emit .shutdownWrite

/-- `errno != EWOULDBLOCK && (errno == EPIPE || errno == ECONNRESET)`. -/
def faultError (errno : Errno) : Bool :=
  errno != EWOULDBLOCK && (errno == EPIPE || errno == ECONNRESET)

/-- The second half of `TcpConnection::sendInLoop`: buffer what was not written. -/
def bufferRest (s : Conn ι β) (rest : List UInt8) : Except Assertion (Conn ι β) :=
  let oldLen := Fifo.readable s.outputBuffer
  let s := if oldLen + rest.length ≥ s.highWaterMark ∧ s.highWaterMarkCallback = true
    then s.queueInLoop (.highWaterMark (oldLen + rest.length)) else s
  let s := { s with outputBuffer := Fifo.append s.outputBuffer rest }
  if s.isWriting then .ok s else s.onChannel .enableWriting

/-- `TcpConnection::sendInLoop`; `w` is the outcome of its direct write, if it makes one. -/
def sendInLoop (s : Conn ι β) (m : Message) (w : WriteResult) : Except Assertion (Conn ι β) :=
  if s.state = .kDisconnected then .ok (s.emit (.sendInLoop m s.state none))
  else if s.isWriting = false ∧ Fifo.readable s.outputBuffer = 0 then
    let s := s.emit (.sendInLoop m s.state (some w))
    match w with
    | .wrote n =>
      let s := s.emit (.write (m.bytes.take n))
      let rest := m.bytes.drop n
      if rest.length = 0 then
        .ok (if s.writeCompleteCallback then s.queueInLoop .writeComplete else s)
      else s.bufferRest rest
    | .error errno =>
      if faultError errno = false ∧ 0 < m.bytes.length then s.bufferRest m.bytes else .ok s
  else
    let s := s.emit (.sendInLoop m s.state none)
    if 0 < m.bytes.length then s.bufferRest m.bytes else .ok s

/-- `TcpConnection::handleWrite`. -/
def handleWrite (s : Conn ι β) (w : WriteResult) : Except Assertion (Conn ι β) :=
  if s.isWriting then
    match w with
    | .wrote k =>
      let n := min k (Fifo.readable s.outputBuffer)
      if 0 < n then do
        let s := s.emit (.write ((Fifo.peek s.outputBuffer).take n))
        let s := { s with outputBuffer := Fifo.retrieve s.outputBuffer n }
        if Fifo.readable s.outputBuffer = 0 then
          let s ← s.onChannel .disableWriting
          let s := if s.writeCompleteCallback then s.queueInLoop .writeComplete else s
          return if s.state = .kDisconnecting then s.shutdownInLoop else s
        else return s
      else .ok s
    | .error _ => .ok s
  else .ok s

/-- `TcpConnection::startReadInLoop`. -/
def startReadInLoop (s : Conn ι β) : Except Assertion (Conn ι β) :=
  if s.reading = false ∨ s.isReading = false then do
    let s ← s.onChannel .enableReading
    return { s with reading := true }
  else .ok s

/-- `TcpConnection::stopReadInLoop`. -/
def stopReadInLoop (s : Conn ι β) : Except Assertion (Conn ι β) :=
  if s.reading = true ∨ s.isReading = true then do
    let s ← s.onChannel .disableReading
    return { s with reading := false }
  else .ok s

/-- `TcpConnection::connectEstablished`. -/
def connectEstablished (s : Conn ι β) : Except Assertion (Conn ι β) := do
  Assertion.established.check (s.state = .kConnecting)
  let s := s.setState .connectEstablished .kConnected
  let s := { s with toReactor := s.toReactor.setChan s.channel { s.ch with tied := true } }
  let s ← s.onChannel .enableReading
  return s.connectionCallback.push [.user]

/-- `TcpConnection::connectDestroyed`, up to its `channel_->remove()`. -/
def connectDestroyed (s : Conn ι β) : Except Assertion (Conn ι β) :=
  if s.state = .kConnected then do
    let s := s.setState .connectDestroyed .kDisconnected
    let s ← s.onChannel .disableAll
    return (s.emit .disableAll).connectionCallback.push [.user, .remove]
  else .ok (s.push [.remove])

/-- `TcpConnection::handleClose`, up to its `closeCallback_`. -/
def handleClose (s : Conn ι β) : Except Assertion (Conn ι β) := do
  Assertion.handleClose.check (s.state = .kConnected ∨ s.state = .kDisconnecting)
  let s := (s.emit .handleClose).setState .handleClose .kDisconnected
  let s ← s.onChannel .disableAll
  return (s.emit .disableAll).connectionCallback.push [.user, .closeCallback]

/-- `TcpConnection::forceCloseInLoop`. -/
def forceCloseInLoop (s : Conn ι β) : Except Assertion (Conn ι β) :=
  if s.state = .kConnected ∨ s.state = .kDisconnecting then s.handleClose else .ok s

/-- `TcpConnection::handleRead`. -/
def handleRead (s : Conn ι β) (r : ReadResult) : Except Assertion (Conn ι β) :=
  match r with
  | .data bytes =>
    if 0 < bytes.length then
      let s := { s with inputBuffer := Fifo.append s.inputBuffer bytes }
      .ok ((s.emit .messageCallback).push [.user])
    else s.handleClose
  | .error _ => .ok s

/-- A functor or channel callback, run by the loop thread. -/
def runFunctor (s : Conn ι β) (w : WriteResult) (r : ReadResult) :
    Functor → Except Assertion (Conn ι β)
  | .connectEstablished => s.connectEstablished
  | .connectDestroyed => s.connectDestroyed
  | .sendInLoop m => s.sendInLoop m w
  | .shutdownInLoop => .ok s.shutdownInLoop
  | .forceCloseInLoop => s.forceCloseInLoop
  | .startReadInLoop => s.startReadInLoop
  | .stopReadInLoop => s.stopReadInLoop
  | .addTimerInLoop => .ok { s with timers := s.timers + 1 }
  | .writeComplete => .ok (s.push [.user])
  | .highWaterMark _ => .ok (s.push [.user])
  | .handleRead => s.handleRead r
  | .handleWrite => s.handleWrite w
  | .handleClose => s.handleClose
  | .handleError => .ok s
  | .other => .ok (s.push [.user])

end Conn

/-! ### The public functions

Each reads `state_` once and then goes through its accesses in order. -/

namespace TcpConnection

/-- `TcpConnection::send`. -/
def send (st : StateE) (m : Message) : List Micro :=
  if st = .kConnected then [.runInLoop (.sendInLoop m)] else []

/-- `TcpConnection::shutdown`, whose test `if(state_ = kConnected)` assigns. -/
def shutdown : List Micro :=
  [.setState .shutdown .kConnected, .setState .shutdown .kDisconnecting, .runInLoop .shutdownInLoop]

/-- `TcpConnection::forceClose`. -/
def forceClose (st : StateE) : List Micro :=
  if st = .kConnected ∨ st = .kDisconnecting then
    [.setState .forceClose .kDisconnecting, .queueInLoop .forceCloseInLoop]
  else []

/-- `TcpConnection::forceCloseWithDelay`; `runAfter` goes through `runInLoop(addTimerInLoop)`. -/
def forceCloseWithDelay (st : StateE) : List Micro :=
  if st = .kConnected ∨ st = .kDisconnecting then
    [.setState .forceCloseWithDelay .kDisconnecting, .runInLoop .addTimerInLoop]
  else []

/-- `TcpConnection::startRead`. -/
def startRead : List Micro := [.runInLoop .startReadInLoop]

/-- `TcpConnection::stopRead`. -/
def stopRead : List Micro := [.runInLoop .stopReadInLoop]

end TcpConnection

def Call.body (st : StateE) : Call → List Micro
  | .send m => TcpConnection.send st m
  | .shutdown => TcpConnection.shutdown
  | .forceClose => TcpConnection.forceClose st
  | .forceCloseWithDelay => TcpConnection.forceCloseWithDelay st
  | .startRead => TcpConnection.startRead
  | .stopRead => TcpConnection.stopRead

namespace Conn

variable {ι β : Type} [DecidableEq ι] [Fifo β UInt8]

/-- One access, by the loop thread (`runInLoop` runs at once) or by another thread. -/
def runMicro (s : Conn ι β) (inLoop : Bool) (w : WriteResult) : Micro → Except Assertion (Conn ι β)
  | .setState fn st => .ok (s.setState fn st)
  | .runInLoop f => if inLoop then s.runFunctor w (.error 0) f else .ok (s.queueInLoop f)
  | .queueInLoop f => .ok (s.queueInLoop f)

def runMicros (inLoop : Bool) (w : WriteResult) :
    List Micro → Conn ι β → Except Assertion (Conn ι β)
  | [], s => .ok s
  | m :: ms, s => (s.runMicro inLoop w m).bind (runMicros inLoop w ms)

/-- A public function called and run to its end without interruption. -/
def callNow (s : Conn ι β) (inLoop : Bool) (w : WriteResult) (c : Call) :
    Except Assertion (Conn ι β) :=
  runMicros inLoop w (c.body s.state) (s.emit (.call c))

/-! ### The loop -/

/-- `poll` and the start of `loop`'s walk over the active channels. -/
def poll (s : Conn ι β) (l : List (Mask × ι)) : Except Assertion (Conn ι β) := do
  let r ← { s.toReactor with activeChannels := [] }.fillActiveChannels l
  let s := { s with toReactor := { r with eventHandling := true } }
  return s.push (s.activeChannels.map .handle ++ [.eventsDone, .doPendingFunctors])

/-- The top frame, taken off the stack; `user` code goes on by calling or returning. -/
def runFrame (s : Conn ι β) (w : WriteResult) (r : ReadResult) :
    Frame ι → Option (Except Assertion (Conn ι β))
  | .user => none
  | .closeCallback => some (.ok (s.emit .closeCallback))
  | .remove => some ((s.onChannel .remove).map fun t => t.emit .destroyed)
  | .handle c =>
    let s := { s with currentActiveChannel := some c }
    if c = s.channel then
      let s := { s with toReactor := s.toReactor.setChan c { s.ch with eventHandling := true } }
      some (.ok (s.push [.onClose, .onError, .onRead, .onWrite, .handled]))
    else some (.ok (s.push [.user]))
  | .onClose => some <|
    if s.ch.revents.has POLLHUP && !s.ch.revents.has POLLIN
    then s.runFunctor w r .handleClose else .ok s
  | .onError => some <|
    if s.ch.revents.has (POLLERR ||| POLLNVAL) then s.runFunctor w r .handleError else .ok s
  | .onRead => some <|
    if s.ch.revents.has (POLLIN ||| POLLPRI ||| POLLRDHUP)
    then s.runFunctor w r .handleRead else .ok s
  | .onWrite => some <|
    if s.ch.revents.has POLLOUT then s.runFunctor w r .handleWrite else .ok s
  | .handled => some <| .ok
    { s with toReactor := s.toReactor.setChan s.channel { s.ch with eventHandling := false } }
  | .eventsDone => some <| .ok
    { s with toReactor := { s.toReactor with currentActiveChannel := none, eventHandling := false } }
  | .doPendingFunctors => some <| .ok
    ({ s with pendingFunctors := [] }.push [.functors s.pendingFunctors])
  | .functors [] => some (.ok s)
  | .functors (f :: fs) => some ((s.push [.functors fs]).runFunctor w r f)

/-! ### Steps -/

/-- The steps of the loop thread, of other threads and of the kernel. -/
inductive Act
  /-- `epoll_wait` returns these events -/
  | poll (evs : List (Int × Mask))
  /-- the loop thread goes on with its top frame; the outcomes of its `::write` and `readFd` -/
  | go (w : WriteResult) (r : ReadResult)
  /-- user code on the loop thread calls a public function -/
  | call (c : Call) (w : WriteResult)
  /-- user code on the loop thread returns -/
  | ret
  /-- a timer of `forceCloseWithDelay` fires -/
  | fire (w : WriteResult)
  /-- another object on the loop thread runs a function of the connection -/
  | enter (f : Functor) (w : WriteResult) (r : ReadResult)
  /-- another object queues a functor -/
  | queue (f : Functor)
  /-- another thread calls a public function and is not interrupted -/
  | offCall (c : Call)
  /-- another thread starts a call -/
  | begin (t : Nat) (c : Call)
  /-- another thread goes on with its call -/
  | micro (t : Nat)
  deriving DecidableEq, Repr

/-- A failed assertion ends the process. -/
def settle (s : Conn ι β) : Except Assertion (Conn ι β) → Conn ι β
  | .ok t => t
  | .error a => { s with aborted := some a }

/-- User code has control of the loop thread. -/
def inUser (s : Conn ι β) : Bool :=
  match s.stack with
  | .user :: _ => true
  | _ => false

def step (s : Conn ι β) (a : Act) : Option (Conn ι β) :=
  if s.aborted.isSome then none else
  match a with
  | .poll evs =>
    if s.stack.isEmpty then (s.epollWait evs).map fun l => s.settle (s.poll l) else none
  | .go w r =>
    match s.stack with
    | [] => none
    | f :: rest => (runFrame { s with stack := rest } w r f).map s.settle
  | .call c w => if s.inUser then some (s.settle (s.callNow true w c)) else none
  | .ret => if s.inUser then some { s with stack := s.stack.tail } else none
  | .fire w =>
    if s.inUser ∧ 0 < s.timers then
      some (s.settle ({ s with timers := s.timers - 1 }.callNow true w .forceClose))
    else none
  | .enter f w r =>
    if s.inUser ∨ s.stack.isEmpty then some (s.settle (s.runFunctor w r f)) else none
  | .queue f => some { s with pendingFunctors := s.pendingFunctors ++ [f] }
  | .offCall c => some (s.settle (s.callNow false (.wrote 0) c))
  | .begin t c =>
    if s.threads t = [] then
      some { s.emit (.call c) with threads := update s.threads t (c.body s.state) }
    else none
  | .micro t =>
    match s.threads t with
    | [] => none
    | m :: ms =>
      some ({ s with threads := update s.threads t ms }.settle
        ({ s with threads := update s.threads t ms }.runMicro false (.wrote 0) m))

end Conn

end SimpleNet
