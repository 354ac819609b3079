import SimpleNet.Client.Connector
import SimpleNet.Connection.Basic
import SimpleNet.Lib.Batch
import SimpleNet.Reactor.Mapped

/-!
# What runs on the thread of a loop

A loop with all that lives in it: the channels of its servers, clients and connections, its
timers and functors.  The thread's control is a stack of frames over the phases of
`EventLoop::loop`.  A frame is the rest of a library function that has called out, or `user`:
user code, which may call any public function, in particular destroy a server, before it
returns.  `Answers` is what the kernel answers in a step; other threads come in between steps.

An object is known by a number, a channel by its owner, and the kernel may give any descriptor
again: `fd` says which one a channel will get.  What a connection reads and writes is left
out, with what `tie_` keeps alive.  A functor or timer of user code may come at any time, and
the callbacks that a connection queues for later are among these.
-/

namespace SimpleNet

open Function (update)

/-- The channels of a loop. -/
inductive ChannelName
  | wakeup
  | timerfd
  /-- `acceptChannel_` of a server -/
  | acceptor (sv : Nat)
  | connection (c : Nat)
  /-- the `n`-th channel that the connector of the client `k` makes -/
  | connector (k n : Nat)
  /-- one that user code has made -/
  | user (n : Nat)
  deriving DecidableEq, Repr

namespace Dispatch

/-- What `closeCallback_` is bound to. -/
inductive CloseCallback
  /-- `TcpServer::removeConnection` of a server of this loop -/
  | server (sv : Nat)
  /-- the same of a server of another loop -/
  | elsewhere
  | client (k : Nat)
  | detailremoveConnection
  deriving DecidableEq, Repr

structure Conn where
  state : StateE
  reading : Bool
  closeCallback : CloseCallback
  /-- `getLoop()` is this loop -/
  here : Bool
  deriving DecidableEq, Repr

inductive Life
  | unborn | alive | destroyed
  deriving DecidableEq, Repr

/-- A server of this loop. -/
structure Server where
  life : Life
  numThreads : Nat
  started : Bool
  connections : List Nat
  deriving DecidableEq, Repr

/-- A client of this loop, with its connector. -/
structure Client where
  life : Life
  retry : Bool
  connect : Bool
  connection : Option Nat
  /-- `connect_` of the connector -/
  connecting : Bool
  state : ConnectorState
  channel : Option Nat
  /-- how many channels the connector has made -/
  numChannels : Nat
  deriving DecidableEq, Repr

inductive Functor
  | user
  | connectEstablished (c : Nat)
  | connectDestroyed (c : Nat)
  | forceCloseInLoop (c : Nat)
  | sendInLoop (c : Nat)
  | startReadInLoop (c : Nat)
  | stopReadInLoop (c : Nat)
  | removeConnectionInLoop (sv c : Nat)
  | startInLoop (k : Nat)
  | stopInLoop (k : Nat)
  | resetChannel (k : Nat)
  deriving DecidableEq, Repr

inductive TimerCallback
  | user
  | startInLoop (k : Nat)
  | forceClose (c : Nat)
  deriving DecidableEq, Repr

/-- What is left to do on the loop's thread. -/
inductive Frame
  | user
  /-- `handleEventWithGuard`: its four tests and its end -/
  | onClose (ch : ChannelName)
  | onError (ch : ChannelName)
  | onRead (ch : ChannelName)
  | onWrite (ch : ChannelName)
  | handled (ch : ChannelName)
  /-- `handleClose`: `closeCallback_(guardThis)` -/
  | closeCallback (c : Nat)
  /-- `connectDestroyed`: `channel_->remove()` -/
  | remove (c : Nat)
  /-- `~TcpServer`: the rest of the map, then `~Acceptor` -/
  | destroying (sv : Nat) (rest : List Nat)
  /-- `TimerQueue::handleRead`: the rest of the expired timers -/
  | expired (rest : List TimerCallback)
  deriving DecidableEq, Repr

inductive Phase
  /-- at `poll`, or in the code around `loop()` -/
  | poll
  /-- the active channels that are still to be handled -/
  | events (todo : List ChannelName)
  | functors
  deriving DecidableEq, Repr

/-- Why a run has ended. -/
inductive Stop
  | assertion (a : Assertion)
  /-- an assertion of `Channel::~Channel` -/
  | channelDtor
  /-- `assert(n==1)` in `removeConnectionInLoop` -/
  | erased
  /-- `assert(connection_ == conn)` in `removeConnection` -/
  | connection
  /-- an assertion of a connector -/
  | connector (a : ConnectorAssert)
  /-- a destroyed server or client is used -/
  | dangling
  deriving DecidableEq, Repr

/-- The outcomes of `readFd`: data, the end of the stream, an error. -/
inductive ReadAnswer
  | data | eof | error
  deriving DecidableEq, Repr

/-- What the system answers. -/
structure Answers where
  read : ReadAnswer := .data
  accepted : Bool := true
  /-- `handleWrite` has emptied the output buffer -/
  drained : Bool := false
  /-- `sendInLoop` could not write all -/
  remaining : Bool := false
  /-- `SO_ERROR` is set, or the descriptor is connected to itself -/
  connectFailed : Bool := false
  errno : ConnectErrno := .none
  /-- `connection_.unique()` -/
  unique : Bool := false
  /-- the timers that `getExpired` takes -/
  expired : List TimerCallback := []
  /-- the next connection in the order of the map -/
  conn : Nat := 0

/-- What user code on the loop's thread may call. -/
inductive Call
  | newServer (sv numThreads : Nat)
  | startServer (sv : Nat)
  | destroyServer (sv : Nat)
  | newClient (k : Nat)
  | enableRetry (k : Nat)
  | connect (k : Nat)
  | disconnect (k : Nat)
  | stop (k : Nat)
  | destroyClient (k : Nat)
  | send (c : Nat)
  | shutdown (c : Nat)
  | forceClose (c : Nat)
  | forceCloseWithDelay (c : Nat)
  | startRead (c : Nat)
  | stopRead (c : Nat)
  | queueInLoop
  /-- an operation of a channel that user code has made -/
  | channel (n : Nat) (op : Reactor.Op)
  deriving DecidableEq, Repr

/-- What other threads do to the loop's objects. -/
inductive Other
  | queueInLoop (f : Functor)
  /-- `newConnection` of a server of another loop -/
  | newConnection
  /-- `shutdown` and `forceClose` write `kDisconnecting` -/
  | setState (c : Nat)
  /-- `connect_` of a client and of its connector -/
  | connect (k : Nat) (b : Bool)
  | connecting (k : Nat) (b : Bool)
  deriving DecidableEq, Repr

end Dispatch

structure Dispatch where
  reactor : Reactor ChannelName
  phase : Dispatch.Phase
  frames : List Dispatch.Frame
  functors : Batched Dispatch.Functor
  /-- the timers of the library that have not fired -/
  timers : List Dispatch.TimerCallback
  conns : Nat → Dispatch.Conn
  numConns : Nat
  servers : Nat → Dispatch.Server
  clients : Nat → Dispatch.Client
  /-- the calls of `handleEvent`, and whether the channel was in `channels_` -/
  handled : List (ChannelName × Bool)
  stopped : Option Dispatch.Stop

namespace Dispatch

/-- A loop none of whose channels has been used. -/
def init (fd : ChannelName → Int) : Dispatch where
  reactor := .fresh fd
  phase := .poll
  frames := [.user]
  functors := .empty
  timers := []
  conns _ := ⟨.kConnecting, true, .elsewhere, true⟩
  numConns := 0
  servers _ := ⟨.unborn, 0, false, []⟩
  clients _ := ⟨.unborn, false, true, none, false, .kDisconnected, none, 0⟩
  handled := []
  stopped := none

/-! ### Small parts -/

def setConn (s : Dispatch) (c : Nat) (x : Conn) : Dispatch := { s with conns := update s.conns c x }

def setServer (s : Dispatch) (sv : Nat) (x : Server) : Dispatch :=
  { s with servers := update s.servers sv x }

def setClient (s : Dispatch) (k : Nat) (x : Client) : Dispatch :=
  { s with clients := update s.clients k x }

def setState (s : Dispatch) (c : Nat) (x : StateE) : Dispatch :=
  s.setConn c { s.conns c with state := x }

def queueInLoop (s : Dispatch) (f : Functor) : Dispatch := { s with functors := s.functors.push f }

def runAfter (s : Dispatch) (x : TimerCallback) : Dispatch := { s with timers := s.timers ++ [x] }

/-- `new TcpConnection`; its number is `numConns`. -/
def newConn (s : Dispatch) (x : CloseCallback) (here : Bool) : Dispatch :=
  { s with
    conns := update s.conns s.numConns ⟨.kConnecting, true, x, here⟩
    numConns := s.numConns + 1 }

/-- What is to be done before the rest of the frames. -/
def push (s : Dispatch) (l : List Frame) : Dispatch := { s with frames := l ++ s.frames }

def check (x : Stop) (p : Prop) [Decidable p] : Except Stop Unit := if p then .ok () else .error x

/-- An operation of a channel. -/
def exec (s : Dispatch) (ch : ChannelName) (op : Reactor.Op) : Except Stop Dispatch :=
  match s.reactor.exec ch op with
  | .ok r => .ok { s with reactor := r }
  | .error a => .error (.assertion a)

/-- `Channel::~Channel`. -/
def channelDtor (s : Dispatch) (ch : ChannelName) : Except Stop Unit :=
  check .channelDtor ((s.reactor.chan ch).eventHandling = false ∧
    (s.reactor.chan ch).addedToLoop = false ∧ ¬ s.reactor.HasChannel ch)

/-- `EventLoop::EventLoop`, with `TimerQueue::TimerQueue`; then the code that has made the loop
goes on. -/
def start (fd : ChannelName → Int) : Except Stop Dispatch := do
  let s ← (init fd).exec .timerfd .enableReading
  s.exec .wakeup .enableReading

/-! ### Connections -/

def connectEstablished (s : Dispatch) (c : Nat) : Except Stop Dispatch := do
  check (.assertion .established) ((s.conns c).state = .kConnecting)
  let s := s.setState c .kConnected
  let s ← s.exec (.connection c) .enableReading
  return s.push [.user]

def connectDestroyed (s : Dispatch) (c : Nat) : Except Stop Dispatch := do
  if (s.conns c).state = .kConnected then
    let s := s.setState c .kDisconnected
    let s ← s.exec (.connection c) .disableAll
    return s.push [.user, .remove c]
  else
    return s.push [.remove c]

/-- `handleClose` up to `closeCallback_`. -/
def handleClose (s : Dispatch) (c : Nat) : Except Stop Dispatch := do
  check (.assertion .handleClose) (s.conns c).state.Live
  let s := s.setState c .kDisconnected
  let s ← s.exec (.connection c) .disableAll
  return s.push [.user, .closeCallback c]

/-- `TcpConnection::handleRead`. -/
def connHandleRead (s : Dispatch) (o : Answers) (c : Nat) : Except Stop Dispatch :=
  match o.read with
  | .data => .ok (s.push [.user])
  | .eof => s.handleClose c
  | .error => .ok s

/-- `TcpConnection::handleWrite`. -/
def connHandleWrite (s : Dispatch) (o : Answers) (c : Nat) : Except Stop Dispatch :=
  if (s.reactor.chan (.connection c)).isWriting then
    if o.drained then s.exec (.connection c) .disableWriting else .ok s
  else .ok s

def sendInLoop (s : Dispatch) (o : Answers) (c : Nat) : Except Stop Dispatch :=
  if (s.conns c).state = .kDisconnected then .ok s
  else if o.remaining ∧ (s.reactor.chan (.connection c)).isWriting = false then
    s.exec (.connection c) .enableWriting
  else .ok s

def startReadInLoop (s : Dispatch) (c : Nat) : Except Stop Dispatch := do
  if (s.conns c).reading = false ∨ (s.reactor.chan (.connection c)).isReading = false then
    let s ← s.exec (.connection c) .enableReading
    return s.setConn c { s.conns c with reading := true }
  else return s

def stopReadInLoop (s : Dispatch) (c : Nat) : Except Stop Dispatch := do
  if (s.conns c).reading = true ∨ (s.reactor.chan (.connection c)).isReading = true then
    let s ← s.exec (.connection c) .disableReading
    return s.setConn c { s.conns c with reading := false }
  else return s

def forceClose (s : Dispatch) (c : Nat) : Dispatch :=
  if (s.conns c).state.Live then (s.setState c .kDisconnecting).queueInLoop (.forceCloseInLoop c)
  else s

def forceCloseInLoop (s : Dispatch) (c : Nat) : Except Stop Dispatch :=
  if (s.conns c).state.Live then s.handleClose c else .ok s

def forceCloseWithDelay (s : Dispatch) (c : Nat) : Dispatch :=
  if (s.conns c).state.Live then
    (s.setState c .kDisconnecting).runAfter (.forceClose c)
  else s

/-! ### Servers -/

/-- `TcpServer::newConnection`, on an accepted descriptor. -/
def serverNewConnection (s : Dispatch) (sv : Nat) : Except Stop Dispatch :=
  let c := s.numConns
  let here := decide ((s.servers sv).numThreads = 0)
  let s := s.newConn (.server sv) here
  let s := s.setServer sv
    { s.servers sv with connections := (s.servers sv).connections ++ [c] }
  if here then s.connectEstablished c else .ok s

/-- `Acceptor::handleRead`. -/
def acceptorHandleRead (s : Dispatch) (o : Answers) (sv : Nat) : Except Stop Dispatch :=
  if o.accepted then s.serverNewConnection sv else .ok s

def removeConnectionInLoop (s : Dispatch) (sv c : Nat) : Except Stop Dispatch := do
  check .dangling ((s.servers sv).life = .alive)
  check .erased (c ∈ (s.servers sv).connections)
  let s := s.setServer sv
    { s.servers sv with connections := (s.servers sv).connections.erase c }
  return if (s.conns c).here then s.queueInLoop (.connectDestroyed c) else s

/-- `Acceptor::~Acceptor`. -/
def acceptorDtor (s : Dispatch) (sv : Nat) : Except Stop Dispatch := do
  let s ← s.exec (.acceptor sv) .disableAll
  let s ← s.exec (.acceptor sv) .remove
  s.channelDtor (.acceptor sv)
  return s

/-- `~TcpServer`: one connection of the map. -/
def destroyConnection (s : Dispatch) (c : Nat) : Except Stop Dispatch :=
  if (s.conns c).here then s.connectDestroyed c else .ok s

/-! ### Clients -/

/-- `Connector::retry`. -/
def retry (s : Dispatch) (k : Nat) : Dispatch :=
  let s := s.setClient k { s.clients k with state := .kDisconnected }
  if (s.clients k).connecting then s.runAfter (.startInLoop k) else s

/-- `Connector::connecting`. -/
def connecting (s : Dispatch) (k : Nat) : Except Stop Dispatch := do
  let n := (s.clients k).numChannels
  check (.connector .connecting) ((s.clients k).channel = none)
  let s := s.setClient k
    { s.clients k with state := .kConnecting, channel := some n, numChannels := n + 1 }
  s.exec (.connector k n) .enableWriting

/-- `Connector::startInLoop`, with `connect()`. -/
def startInLoop (s : Dispatch) (o : Answers) (k : Nat) : Except Stop Dispatch := do
  check (.connector .startInLoop) ((s.clients k).state = .kDisconnected)
  if (s.clients k).connecting then
    match o.errno.case with
    | .connecting => s.connecting k
    | .retry => return s.retry k
    | .close => return s
  else return s

/-- `Connector::removeAndResetChannel`. -/
def removeAndResetChannel (s : Dispatch) (k : Nat) : Except Stop Dispatch :=
  match (s.clients k).channel with
  | none => .error (.connector .null)
  | some n => do
    let s ← s.exec (.connector k n) .disableAll
    let s ← s.exec (.connector k n) .remove
    return s.queueInLoop (.resetChannel k)

def resetChannel (s : Dispatch) (k : Nat) : Except Stop Dispatch :=
  match (s.clients k).channel with
  | none => .ok s
  | some n => do
    s.channelDtor (.connector k n)
    return s.setClient k { s.clients k with channel := none }

def stopInLoop (s : Dispatch) (k : Nat) : Except Stop Dispatch := do
  if (s.clients k).state = .kConnecting then
    let s := s.setClient k { s.clients k with state := .kDisconnected }
    let s ← s.removeAndResetChannel k
    return s.retry k
  else return s

/-- `TcpClient::newConnection`. -/
def clientNewConnection (s : Dispatch) (k : Nat) : Except Stop Dispatch := do
  check .dangling ((s.clients k).life = .alive)
  let c := s.numConns
  let s := s.newConn (.client k) true
  let s := s.setClient k { s.clients k with connection := some c }
  s.connectEstablished c

/-- `Connector::handleWrite`. -/
def connectorHandleWrite (s : Dispatch) (o : Answers) (k : Nat) : Except Stop Dispatch := do
  if (s.clients k).state = .kConnecting then
    let s ← s.removeAndResetChannel k
    if o.connectFailed then return s.retry k
    else
      let s := s.setClient k { s.clients k with state := .kConnected }
      if (s.clients k).connecting then s.clientNewConnection k else return s
  else
    check (.connector .handleWrite) ((s.clients k).state = .kDisconnected)
    return s

/-- `Connector::handleError`. -/
def connectorHandleError (s : Dispatch) (k : Nat) : Except Stop Dispatch := do
  if (s.clients k).state = .kConnecting then
    let s ← s.removeAndResetChannel k
    return s.retry k
  else return s

/-- `TcpClient::removeConnection`, with `restart()`. -/
def clientRemoveConnection (s : Dispatch) (o : Answers) (k c : Nat) : Except Stop Dispatch := do
  check .dangling ((s.clients k).life = .alive)
  check .connection ((s.clients k).connection = some c)
  let s := s.setClient k { s.clients k with connection := none }
  let s := s.queueInLoop (.connectDestroyed c)
  if (s.clients k).retry ∧ (s.clients k).connect then
    let s := s.setClient k { s.clients k with state := .kDisconnected, connecting := true }
    s.startInLoop o k
  else return s

/-- `TcpClient::~TcpClient`. -/
def destroyClient (s : Dispatch) (o : Answers) (k : Nat) : Dispatch :=
  let s := s.setClient k { s.clients k with life := .destroyed }
  match (s.clients k).connection with
  | some c =>
    let s := s.setConn c { s.conns c with closeCallback := .detailremoveConnection }
    if o.unique then s.forceClose c else s
  | none =>
    (s.setClient k { s.clients k with connecting := false }).queueInLoop (.stopInLoop k)

/-- `closeCallback_(guardThis)`. -/
def closeCallback (s : Dispatch) (o : Answers) (c : Nat) : Except Stop Dispatch :=
  match (s.conns c).closeCallback with
  | .server sv => s.removeConnectionInLoop sv c
  | .elsewhere => .ok s
  | .client k => s.clientRemoveConnection o k c
  | .detailremoveConnection => .ok (s.queueInLoop (.connectDestroyed c))

/-! ### The loop -/

/-- What `Channel::handleEvent` will do, with `currentActiveChannel_` at the channel. -/
def handleEvent (s : Dispatch) (ch : ChannelName) (todo : List ChannelName) : Dispatch :=
  { s with
    reactor := { s.reactor with
      currentActiveChannel := some ch }.setChan ch { s.reactor.chan ch with eventHandling := true }
    phase := .events todo
    frames := [.onClose ch, .onError ch, .onRead ch, .onWrite ch, .handled ch]
    handled := s.handled ++ [(ch, decide (s.reactor.HasChannel ch))] }

/-- The end of the active channels; `doPendingFunctors` takes the queue. -/
def eventsDone (s : Dispatch) : Dispatch :=
  { s with
    reactor := { s.reactor with currentActiveChannel := none, eventHandling := false }
    phase := .functors
    functors := s.functors.swap }

/-- `closeCallback_` of a channel. -/
def onClose (s : Dispatch) : ChannelName → Except Stop Dispatch
  | .connection c => s.handleClose c
  | .user _ => .ok (s.push [.user])
  | .wakeup | .timerfd | .acceptor _ | .connector _ _ => .ok s

/-- `errorCallback_`; that of a connection only reads `SO_ERROR`. -/
def onError (s : Dispatch) : ChannelName → Except Stop Dispatch
  | .connector k _ => s.connectorHandleError k
  | .user _ => .ok (s.push [.user])
  | .wakeup | .timerfd | .acceptor _ | .connection _ => .ok s

/-- `readCallback_`. -/
def onRead (s : Dispatch) (o : Answers) : ChannelName → Except Stop Dispatch
  | .timerfd =>
    .ok ({ s with timers := s.timers.diff o.expired }.push [.expired o.expired])
  | .acceptor sv => s.acceptorHandleRead o sv
  | .connection c => s.connHandleRead o c
  | .user _ => .ok (s.push [.user])
  | .wakeup | .connector _ _ => .ok s

/-- `writeCallback_`. -/
def onWrite (s : Dispatch) (o : Answers) : ChannelName → Except Stop Dispatch
  | .connection c => s.connHandleWrite o c
  | .connector k _ => s.connectorHandleWrite o k
  | .user _ => .ok (s.push [.user])
  | .wakeup | .timerfd | .acceptor _ => .ok s

def runTimer (s : Dispatch) (o : Answers) : TimerCallback → Except Stop Dispatch
  | .user => .ok (s.push [.user])
  | .startInLoop k => s.startInLoop o k
  | .forceClose c => .ok (s.forceClose c)

def runFunctor (s : Dispatch) (o : Answers) : Functor → Except Stop Dispatch
  | .user => .ok (s.push [.user])
  | .connectEstablished c => s.connectEstablished c
  | .connectDestroyed c => s.connectDestroyed c
  | .forceCloseInLoop c => s.forceCloseInLoop c
  | .sendInLoop c => s.sendInLoop o c
  | .startReadInLoop c => s.startReadInLoop c
  | .stopReadInLoop c => s.stopReadInLoop c
  | .removeConnectionInLoop sv c => s.removeConnectionInLoop sv c
  | .startInLoop k => s.startInLoop o k
  | .stopInLoop k => s.stopInLoop k
  | .resetChannel k => s.resetChannel k

/-- `revents_` of a channel. -/
def revents (s : Dispatch) (ch : ChannelName) : Mask := (s.reactor.chan ch).revents

/-- The rest of a frame that has been taken off; `none` where the thread waits for something
else. -/
def resume (s : Dispatch) (o : Answers) : Frame → Option (Except Stop Dispatch)
  | .user => none
  | .onClose ch =>
    some (if (s.revents ch).has POLLHUP ∧ ¬ (s.revents ch).has POLLIN then s.onClose ch else .ok s)
  | .onError ch => some (if (s.revents ch).has (POLLERR ||| POLLNVAL) then s.onError ch else .ok s)
  | .onRead ch =>
    if ch = .timerfd ∧ ∃ x ∈ o.expired, x ≠ .user ∧ x ∉ s.timers then none
    else some (if (s.revents ch).has (POLLIN ||| POLLPRI ||| POLLRDHUP) then s.onRead o ch else .ok s)
  | .onWrite ch => some (if (s.revents ch).has POLLOUT then s.onWrite o ch else .ok s)
  | .handled ch =>
    some (.ok { s with
      reactor := s.reactor.setChan ch { s.reactor.chan ch with eventHandling := false } })
  | .closeCallback c => some (s.closeCallback o c)
  | .remove c => some (s.exec (.connection c) .remove)
  | .destroying sv [] => some (s.acceptorDtor sv)
  | .destroying sv (c :: rest) =>
    if o.conn ∈ c :: rest then
      some ((s.push [.destroying sv ((c :: rest).erase o.conn)]).destroyConnection o.conn)
    else none
  | .expired [] => some (.ok s)
  | .expired (x :: rest) => some ((s.push [.expired rest]).runTimer o x)

/-- The loop's thread goes on in the library's code. -/
def go (s : Dispatch) (o : Answers) : Option (Except Stop Dispatch) :=
  match s.frames, s.phase, s.functors.rest with
  | f :: fs, _, _ => { s with frames := fs }.resume o f
  | [], .poll, _ => none
  | [], .events (ch :: todo), _ => some (.ok (s.handleEvent ch todo))
  | [], .events [], _ => some (.ok s.eventsDone)
  | [], .functors, f :: _ => some ({ s with functors := s.functors.tail }.runFunctor o f)
  | [], .functors, [] => some (.ok { s with phase := .poll })

/-- `poll` returns with the events `evs`. -/
def poll (s : Dispatch) (evs : List (Int × Mask)) : Option (Except Stop Dispatch) :=
  (s.reactor.epollWait evs).map fun l =>
    match { s.reactor with activeChannels := [] }.fillActiveChannels l with
    | .ok r => .ok { s with
        reactor := { r with eventHandling := true }, phase := .events r.activeChannels }
    | .error a => .error (.assertion a)

/-- A connection that lives in this loop. -/
def Known (s : Dispatch) (c : Nat) : Prop := c < s.numConns ∧ (s.conns c).here = true

instance (s : Dispatch) (c : Nat) : Decidable (s.Known c) := inferInstanceAs (Decidable (_ ∧ _))

/-- What the caller of a public function has to see to. -/
def Call.Allowed (s : Dispatch) : Call → Prop
  | .newServer sv _ => (s.servers sv).life = .unborn
  | .startServer sv | .destroyServer sv => (s.servers sv).life = .alive
  | .newClient k => (s.clients k).life = .unborn
  | .enableRetry k | .connect k | .disconnect k | .stop k | .destroyClient k =>
    (s.clients k).life = .alive
  | .send c | .shutdown c | .forceClose c | .forceCloseWithDelay c | .startRead c | .stopRead c =>
    s.Known c
  | .queueInLoop | .channel _ _ => True

instance (s : Dispatch) : (c : Call) → Decidable (c.Allowed s)
  | .newServer _ _ | .newClient _ | .startServer _ | .destroyServer _ | .enableRetry _ | .connect _
  | .disconnect _ | .stop _ | .destroyClient _ => inferInstanceAs (Decidable (_ = _))
  | .send _ | .shutdown _ | .forceClose _ | .forceCloseWithDelay _ | .startRead _ | .stopRead _ =>
    inferInstanceAs (Decidable (s.Known _))
  | .queueInLoop | .channel _ _ => .isTrue trivial

/-- User code on the loop's thread calls a public function. -/
def call (s : Dispatch) (o : Answers) : Call → Except Stop Dispatch
  | .newServer sv n => .ok (s.setServer sv ⟨.alive, n, false, []⟩)
  | .startServer sv =>
    if (s.servers sv).started then .ok s
    else (s.setServer sv { s.servers sv with started := true }).exec (.acceptor sv) .enableReading
  | .destroyServer sv =>
    .ok ((s.setServer sv { s.servers sv with life := .destroyed }).push
      [.destroying sv (s.servers sv).connections])
  | .newClient k => .ok (s.setClient k { s.clients k with life := .alive })
  | .enableRetry k => .ok (s.setClient k { s.clients k with retry := true })
  | .connect k =>
    (s.setClient k { s.clients k with connect := true, connecting := true }).startInLoop o k
  | .disconnect k =>
    let s := s.setClient k { s.clients k with connect := false }
    match (s.clients k).connection with
    | some c => .ok (s.setState c .kDisconnecting)
    | none => .ok s
  | .stop k =>
    .ok ((s.setClient k { s.clients k with connect := false, connecting := false }).queueInLoop
      (.stopInLoop k))
  | .destroyClient k => .ok (s.destroyClient o k)
  | .send c => if (s.conns c).state = .kConnected then s.sendInLoop o c else .ok s
  | .shutdown c => .ok (s.setState c .kDisconnecting)
  | .forceClose c => .ok (s.forceClose c)
  | .forceCloseWithDelay c => .ok (s.forceCloseWithDelay c)
  | .startRead c => s.startReadInLoop c
  | .stopRead c => s.stopReadInLoop c
  | .queueInLoop => .ok (s.queueInLoop .user)
  | .channel n op => s.exec (.user n) op

/-- What another thread may queue. -/
def Functor.foreign : Functor → Bool
  | .connectEstablished _ | .resetChannel _ => false
  | .user | .connectDestroyed _ | .forceCloseInLoop _ | .sendInLoop _ | .startReadInLoop _
  | .stopReadInLoop _ | .removeConnectionInLoop _ _ | .startInLoop _ | .stopInLoop _ => true

def other (s : Dispatch) : Other → Option Dispatch
  | .queueInLoop f => if f.foreign then some (s.queueInLoop f) else none
  | .newConnection =>
    some ((s.newConn .elsewhere true).queueInLoop (.connectEstablished s.numConns))
  | .setState c => some (s.setState c .kDisconnecting)
  | .connect k b => some (s.setClient k { s.clients k with connect := b })
  | .connecting k b => some (s.setClient k { s.clients k with connecting := b })

/-- The steps: `go` of the library's code, `call` and `ret` of user code, `poll` at the
top of `loop()` and `leave` when `loop()` returns, and the other threads. -/
inductive Act
  | poll (evs : List (Int × Mask))
  | leave
  | go (o : Answers)
  | call (c : Call) (o : Answers)
  | ret
  | other (x : Other)

def act (s : Dispatch) : Act → Option (Except Stop Dispatch)
  | .poll evs => if s.phase = .poll ∧ s.frames = [] then s.poll evs else none
  | .leave => if s.phase = .poll ∧ s.frames = [] then some (.ok (s.push [.user])) else none
  | .go o => s.go o
  | .call c o => if s.frames.head? = some .user ∧ c.Allowed s then some (s.call o c) else none
  | .ret => if s.frames.head? = some .user then some (.ok { s with frames := s.frames.tail }) else none
  | .other x => (s.other x).map .ok

/-- One step; a failed assertion ends the run. -/
def step (s : Dispatch) (a : Act) : Option Dispatch :=
  if s.stopped.isSome then none else
  (s.act a).map fun x =>
    match x with
    | .ok t => t
    | .error e => { s with stopped := some e }

end Dispatch

end SimpleNet
