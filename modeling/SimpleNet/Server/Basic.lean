import SimpleNet.Lib.Batch
import SimpleNet.Lib.Run
import SimpleNet.Net.Text
import Mathlib.Data.List.AList
import Mathlib.Data.BitVec
import Mathlib.Logic.Function.Basic

/-!
# A server and its loops

`TcpServer` in its accept loop (number 0) with the I/O loops 1, ..., n of its thread pool, or
with the accept loop alone.  Each loop has a thread and a queue of functors; `runInLoop` runs a
functor at once on the loop's own thread and queues it from another one.  What a connection
does in between is not modelled: its `handleClose` may come at any time in its loop, and calls
`closeCallback_` in a step of its own.

The destructor of the server runs in the accept loop: it hands the connections of the map to
their loops one by one, then the pool tells the loops to quit.  A connection is known by the
order of its creation; `trace` records, oldest first, what the run did.
-/

namespace SimpleNet

open Function (update)

/-- A connection: the number of its creation, its `loop_` and its `name_`. -/
structure TcpConnectionPtr where
  id : Nat
  loop : Nat
  name : Text
  deriving DecidableEq, Repr

/-- The functors by which the server and its connections talk. -/
inductive Task
  | connectEstablished (c : TcpConnectionPtr)
  | removeConnectionInLoop (c : TcpConnectionPtr)
  | connectDestroyed (c : TcpConnectionPtr)
  deriving DecidableEq, Repr

/-- What a run does. -/
inductive ServerEvent
  /-- `connections_[connName] = conn` and what it replaced -/
  | inserted (c : TcpConnectionPtr) (old : Option TcpConnectionPtr)
  | closeCallback (c : TcpConnectionPtr)
  /-- `connections_.erase(conn->name())` and what it removed -/
  | erased (c : TcpConnectionPtr) (found : Option TcpConnectionPtr)
  | queued (l : Nat) (f : Task)
  | ran (l : Nat) (f : Task)
  deriving DecidableEq, Repr

/-- Where a loop is: at `poll` and its handlers, in `doPendingFunctors`, or at its end. -/
inductive LoopPhase
  | events | functors | stopped
  deriving DecidableEq, Repr

structure ServerLoop where
  phase : LoopPhase
  functors : Batched Task
  /-- the connection whose `handleClose` has not yet called `closeCallback_` -/
  closing : Option TcpConnectionPtr
  quit : Bool

/-- The life of the server; its destructor has the connections `rest` still to destroy. -/
inductive ServerLife
  | alive
  | destroying (rest : List TcpConnectionPtr)
  | destroyed
  deriving DecidableEq, Repr

structure TcpServer where
  name : Text
  ipPort : Text
  nextConnId : BitVec 32
  connections : AList fun _ : Text => TcpConnectionPtr
  /-- the size of the pool's `loops_` -/
  numLoops : Nat
  /-- the pool's `next_` -/
  next : Nat
  loops : Nat → ServerLoop
  accepted : List TcpConnectionPtr
  life : ServerLife
  trace : List ServerEvent
  /-- `assert(n==1)` failed -/
  aborted : Bool
  /-- a member function ran on the destroyed server -/
  dangling : Bool

namespace TcpServer

/-- The server after `start()`. -/
def init (name ipPort : Text) (numLoops : Nat) : TcpServer where
  name := name
  ipPort := ipPort
  nextConnId := 1
  connections := ∅
  numLoops := numLoops
  next := 0
  loops _ := ⟨.events, .empty, none, false⟩
  accepted := []
  life := .alive
  trace := []
  aborted := false
  dangling := false

def emit (s : TcpServer) (e : ServerEvent) : TcpServer := { s with trace := s.trace ++ [e] }

def setLoop (s : TcpServer) (l : Nat) (x : ServerLoop) : TcpServer :=
  { s with loops := update s.loops l x }

/-- `EventLoop::queueInLoop` of the loop `l`. -/
def queueInLoop (s : TcpServer) (l : Nat) (f : Task) : TcpServer :=
  (s.emit (.queued l f)).setLoop l { s.loops l with functors := (s.loops l).functors.push f }

/-- `TcpServer::removeConnectionInLoop`. -/
def removeConnectionInLoop (s : TcpServer) (c : TcpConnectionPtr) : TcpServer :=
  if s.life = .destroyed then { s with dangling := true } else
  let found := s.connections.lookup c.name
  let s := { s.emit (.erased c found) with connections := s.connections.erase c.name }
  if found.isSome then s.queueInLoop c.loop (.connectDestroyed c) else { s with aborted := true }

/-- A functor, run on the loop `l`. -/
def runTask (s : TcpServer) (l : Nat) (f : Task) : TcpServer :=
  match f with
  | .connectEstablished _ | .connectDestroyed _ => s.emit (.ran l f)
  | .removeConnectionInLoop c => (s.emit (.ran l f)).removeConnectionInLoop c

/-- `EventLoop::runInLoop` of the loop `l`, called on the thread of the loop `cur`. -/
def runInLoop (s : TcpServer) (cur l : Nat) (f : Task) : TcpServer :=
  if cur = l then s.runTask l f else s.queueInLoop l f

/-- `EventLoopThreadPool::getNextLoop`: the loop, and `next_` after the call. -/
def getNextLoop (s : TcpServer) : Nat × Nat :=
  if s.numLoops = 0 then (0, s.next)
  else (s.next + 1, if s.next + 1 ≥ s.numLoops then 0 else s.next + 1)

/-- The name given to the connection with the number `nextConnId_`. -/
def connName (name ipPort : Text) (nextConnId : BitVec 32) : Text :=
  name ++ snprintf 64 ('-' :: ipPort ++ '#' :: decimal nextConnId.toInt)

/-- `TcpServer::newConnection`. -/
def newConnection (s : TcpServer) : TcpServer :=
  let ioLoop := s.getNextLoop.1
  let conn : TcpConnectionPtr := ⟨s.accepted.length, ioLoop, connName s.name s.ipPort s.nextConnId⟩
  let s := { s.emit (.inserted conn (s.connections.lookup conn.name)) with
    next := s.getNextLoop.2
    nextConnId := s.nextConnId + 1
    connections := s.connections.insert conn.name conn
    accepted := s.accepted ++ [conn] }
  s.runInLoop 0 ioLoop (.connectEstablished conn)

/-- `TcpServer::removeConnection`, called on the loop `l`. -/
def removeConnection (s : TcpServer) (l : Nat) (c : TcpConnectionPtr) : TcpServer :=
  if s.life = .destroyed then { s with dangling := true }
  else s.runInLoop l 0 (.removeConnectionInLoop c)

/-- The steps of the loops and of the server's destructor. -/
inductive Act
  /-- the acceptor's handler calls `newConnection` -/
  | accept
  /-- `handleClose` of a connection starts on its loop -/
  | handleClose (c : TcpConnectionPtr)
  /-- `handleClose` calls `closeCallback_` -/
  | closeCallback (l : Nat)
  | doPendingFunctors (l : Nat)
  /-- the next functor of the batch -/
  | run (l : Nat)
  /-- the end of the batch, and `while(!quit_)` -/
  | iterate (l : Nat)
  /-- the destructor starts -/
  | destroy
  /-- the destructor comes to a connection -/
  | destroyNext (c : TcpConnectionPtr)
  /-- the destructor ends -/
  | destroyed
  /-- the pool tells a loop to quit -/
  | quit (l : Nat)
  deriving DecidableEq, Repr

/-- The thread of the loop is not in the server's destructor. -/
def free (s : TcpServer) (l : Nat) : Bool :=
  match s.life with
  | .destroying _ => l != 0
  | _ => true

/-- The thread of the loop may go on with the code of `loop()`. -/
def idle (s : TcpServer) (l : Nat) (p : LoopPhase) : Prop :=
  s.free l = true ∧ (s.loops l).closing = none ∧ (s.loops l).phase = p

instance (s : TcpServer) (l : Nat) (p : LoopPhase) : Decidable (s.idle l p) :=
  inferInstanceAs (Decidable (_ ∧ _ ∧ _))

def step (s : TcpServer) (a : Act) : Option TcpServer :=
  if s.aborted ∨ s.dangling then none else
  match a with
  | .accept => if s.life = .alive ∧ s.idle 0 .events then some s.newConnection else none
  | .handleClose c =>
    if c ∈ s.accepted ∧ (s.idle c.loop .events ∨ s.idle c.loop .functors) then
      some (s.setLoop c.loop { s.loops c.loop with closing := some c })
    else none
  | .closeCallback l =>
    match (s.loops l).closing with
    | some c =>
      if s.free l then
        some (((s.setLoop l { s.loops l with closing := none }).emit (.closeCallback c)).removeConnection
          l c)
      else none
    | none => none
  | .doPendingFunctors l =>
    if s.idle l .events then
      some (s.setLoop l { s.loops l with
        phase := .functors
        functors := (s.loops l).functors.swap })
    else none
  | .run l =>
    match (s.loops l).functors.rest with
    | f :: _ =>
      if s.idle l .functors then
        some ((s.setLoop l { s.loops l with functors := (s.loops l).functors.tail }).runTask l f)
      else none
    | [] => none
  | .iterate l =>
    if s.idle l .functors ∧ (s.loops l).functors.rest = [] then
      some (s.setLoop l { s.loops l with
        phase := if (s.loops l).quit then .stopped else .events })
    else none
  | .destroy =>
    if s.life = .alive then
      some { s with life := .destroying (s.connections.entries.map Sigma.snd) }
    else none
  | .destroyNext c =>
    match s.life with
    | .destroying rest =>
      if c ∈ rest then
        some ({ s with life := .destroying (rest.erase c) }.runInLoop 0 c.loop (.connectDestroyed c))
      else none
    | _ => none
  | .destroyed => if s.life = .destroying [] then some { s with life := .destroyed } else none
  | .quit l =>
    if 0 < l ∧ (s.life = .destroying [] ∨ s.life = .destroyed) then
      some (s.setLoop l { s.loops l with quit := true })
    else none

end TcpServer

end SimpleNet
