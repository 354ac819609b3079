import SimpleNet.Lib.Flags
import SimpleNet.Lib.Run
import Mathlib.Logic.Function.Basic

/-!
# Channels, the poller and the kernel's interest set

The dispatching half of an event loop: the `Channel` objects of one loop, the map
`channels_` of its `EPollPoller`, the interest set that the kernel keeps behind
`epollfd_`, and the fields by which `EventLoop::loop` walks over the active channels.

Channels are named by a type `ι` (one name an object); the poller's raw pointers
are these names.  An `assert` that fails ends the process: such functions return
`Except Assertion`, and the state after a failed assertion does not exist.
-/

namespace SimpleNet

open Function (update)

/-! ### Masks -/

abbrev Mask := BitVec 32

def POLLIN : Mask := 0x0001#32
def POLLPRI : Mask := 0x0002#32
def POLLOUT : Mask := 0x0004#32
def POLLERR : Mask := 0x0008#32
def POLLHUP : Mask := 0x0010#32
def POLLNVAL : Mask := 0x0020#32
def POLLRDHUP : Mask := 0x2000#32

def kNoneEvent : Mask := 0#32
def kReadEvent : Mask := POLLIN ||| POLLPRI
def kWriteEvent : Mask := POLLOUT

/-- `if (m & flags)`. -/
def Mask.has (m flags : Mask) : Bool := m &&& flags != 0#32

/-! ### Assertions -/

/-- The `assert` sites of the modelled functions. -/
inductive Assertion
  /-- `Channel::remove`: `isNoneEvent()` -/
  | removeNone
  /-- `EventLoop::removeChannel`: the channel is the current one or not active -/
  | removeActive
  /-- `EPollPoller::updateChannel`: a `kNew` channel's fd is not in `channels_` -/
  | newAbsent
  /-- `channels_.find(fd) != channels_.end()` -/
  | present
  /-- `channels_[fd] == channel` -/
  | same
  /-- `EPollPoller::removeChannel`: `channel->isNoneEvent()` -/
  | pollerNone
  /-- `EPollPoller::removeChannel`: `index == kAdded || index == kDeleted` -/
  | pollerIndex
  /-- `EPollPoller::removeChannel`: `n == 1` -/
  | pollerErased
  /-- `TcpConnection::connectEstablished`: `state_ == kConnecting` -/
  | established
  /-- `TcpConnection::handleClose`: `state_ == kConnected || state_ == kDisconnecting` -/
  | handleClose
  deriving DecidableEq, Repr

/-- `assert(p)`. -/
def Assertion.check (a : Assertion) (p : Prop) [Decidable p] : Except Assertion Unit :=
  if p then .ok () else .error a

/-! ### Channels -/

/-- `Channel::index_`. -/
inductive Index
  | kNew | kAdded | kDeleted
  deriving DecidableEq, Repr

structure Channel where
  fd : Int
  events : Mask
  revents : Mask
  index : Index
  tied : Bool
  eventHandling : Bool
  addedToLoop : Bool

/-- `Channel::Channel`. -/
def Channel.new (fd : Int) : Channel where
  fd := fd
  events := kNoneEvent
  revents := 0#32
  index := .kNew
  tied := false
  eventHandling := false
  addedToLoop := false

def Channel.isNoneEvent (c : Channel) : Bool := c.events == kNoneEvent
def Channel.isWriting (c : Channel) : Bool := c.events.has kWriteEvent
def Channel.isReading (c : Channel) : Bool := c.events.has kReadEvent

/-! ### The kernel's interest set -/

inductive CtlOp
  | ADD | MOD | DEL

/-- `::epoll_ctl`: the return value and the interest set afterwards. -/
def epollCtl {ι : Type} (op : CtlOp) (fd : Int) (event : Mask × ι)
    (set : Int → Option (Mask × ι)) : Int × (Int → Option (Mask × ι)) :=
  match op, set fd with
  | .ADD, none => (0, update set fd (some event))
  | .MOD, some _ => (0, update set fd (some event))
  | .DEL, some _ => (0, update set fd none)
  | _, _ => (-1, set)

/-! ### The loop -/

/-- One loop's channels, poller and dispatch fields. -/
structure Reactor (ι : Type) where
  chan : ι → Channel
  /-- `Poller::channels_` -/
  channels : Int → Option ι
  /-- the interest set of `epollfd_`: mask and `data.ptr` of each fd -/
  epoll : Int → Option (Mask × ι)
  /-- what the `epoll_ctl` calls returned (`EPollPoller::update` prints it) -/
  ctl : List Int
  activeChannels : List ι
  currentActiveChannel : Option ι
  eventHandling : Bool

namespace Reactor

variable {ι : Type} [DecidableEq ι]

/-- A loop none of whose channels has been used yet. -/
def fresh (fd : ι → Int) : Reactor ι where
  chan c := .new (fd c)
  channels _ := none
  epoll _ := none
  ctl := []
  activeChannels := []
  currentActiveChannel := none
  eventHandling := false

def setChan (r : Reactor ι) (c : ι) (ch : Channel) : Reactor ι :=
  { r with chan := update r.chan c ch }

def setIndex (r : Reactor ι) (c : ι) (i : Index) : Reactor ι :=
  r.setChan c { r.chan c with index := i }

/-! ### `EPollPoller` -/

/-- `EPollPoller::update`. -/
def ctlUpdate (r : Reactor ι) (op : CtlOp) (c : ι) : Reactor ι :=
  let res := epollCtl op (r.chan c).fd ((r.chan c).events, c) r.epoll
  { r with epoll := res.2, ctl := r.ctl ++ [res.1] }

/-- `EPollPoller::updateChannel`. -/
def pollerUpdateChannel (r : Reactor ι) (c : ι) : Except Assertion (Reactor ι) := do
  let fd := (r.chan c).fd
  match (r.chan c).index with
  | .kNew =>
    Assertion.newAbsent.check (r.channels fd = none)
    let r := { r with channels := update r.channels fd (some c) }
    return (r.setIndex c .kAdded).ctlUpdate .ADD c
  | .kDeleted =>
    Assertion.present.check (r.channels fd ≠ none)
    Assertion.same.check (r.channels fd = some c)
    return (r.setIndex c .kAdded).ctlUpdate .ADD c
  | .kAdded =>
    Assertion.present.check (r.channels fd ≠ none)
    Assertion.same.check (r.channels fd = some c)
    if (r.chan c).isNoneEvent then
      return (r.ctlUpdate .DEL c).setIndex c .kDeleted
    else
      return r.ctlUpdate .MOD c

/-- `EPollPoller::removeChannel`. -/
def pollerRemoveChannel (r : Reactor ι) (c : ι) : Except Assertion (Reactor ι) := do
  let fd := (r.chan c).fd
  Assertion.present.check (r.channels fd ≠ none)
  Assertion.same.check (r.channels fd = some c)
  Assertion.pollerNone.check ((r.chan c).isNoneEvent = true)
  let index := (r.chan c).index
  Assertion.pollerIndex.check (index = .kAdded ∨ index = .kDeleted)
  let n := if (r.channels fd).isSome then 1 else 0
  let r := { r with channels := update r.channels fd none }
  Assertion.pollerErased.check (n = 1)
  let r := if index = .kAdded then r.ctlUpdate .DEL c else r
  return r.setIndex c .kNew

/-- `EPollPoller::fillActiveChannels`, for the events that `epoll_wait` returned. -/
def fillActiveChannels (r : Reactor ι) : List (Mask × ι) → Except Assertion (Reactor ι)
  | [] => .ok r
  | (m, c) :: evs => do
    Assertion.present.check (r.channels (r.chan c).fd ≠ none)
    Assertion.same.check (r.channels (r.chan c).fd = some c)
    let r := r.setChan c { r.chan c with revents := m }
    fillActiveChannels { r with activeChannels := r.activeChannels ++ [c] } evs

/-- What `epoll_wait` may report for an fd: flags asked for, `POLLHUP` and `POLLERR`;
with them comes the stored pointer. -/
def epollReport (r : Reactor ι) (ev : Int × Mask) : Option (Mask × ι) :=
  match r.epoll ev.1 with
  | some (interest, c) =>
    if Flags.Within ev.2 (interest ||| POLLHUP ||| POLLERR) then some (ev.2, c) else none
  | none => none

/-- The events of one `epoll_wait`: distinct fds of the interest set. -/
def epollWait (r : Reactor ι) (evs : List (Int × Mask)) : Option (List (Mask × ι)) :=
  if (evs.map Prod.fst).Nodup then evs.mapM r.epollReport else none

/-! ### `EventLoop` and `Channel` -/

/-- `EventLoop::removeChannel`. -/
def removeChannel (r : Reactor ι) (c : ι) : Except Assertion (Reactor ι) := do
  if r.eventHandling then
    Assertion.removeActive.check
      (r.currentActiveChannel = some c ∨ c ∉ r.activeChannels)
  r.pollerRemoveChannel c

/-- `events_ = m; update();` of a channel. -/
def channelUpdate (r : Reactor ι) (c : ι) (m : Mask) : Except Assertion (Reactor ι) :=
  let r := r.setChan c { r.chan c with events := m, addedToLoop := true }
  r.pollerUpdateChannel c

def enableReading (r : Reactor ι) (c : ι) : Except Assertion (Reactor ι) :=
  r.channelUpdate c ((r.chan c).events ||| kReadEvent)

def disableReading (r : Reactor ι) (c : ι) : Except Assertion (Reactor ι) :=
  r.channelUpdate c ((r.chan c).events &&& ~~~kReadEvent)

def enableWriting (r : Reactor ι) (c : ι) : Except Assertion (Reactor ι) :=
  r.channelUpdate c ((r.chan c).events ||| kWriteEvent)

def disableWriting (r : Reactor ι) (c : ι) : Except Assertion (Reactor ι) :=
  r.channelUpdate c ((r.chan c).events &&& ~~~kWriteEvent)

def disableAll (r : Reactor ι) (c : ι) : Except Assertion (Reactor ι) :=
  r.channelUpdate c kNoneEvent

/-- `Channel::remove`. -/
def remove (r : Reactor ι) (c : ι) : Except Assertion (Reactor ι) := do
  Assertion.removeNone.check ((r.chan c).isNoneEvent = true)
  let r := r.setChan c { r.chan c with addedToLoop := false }
  r.removeChannel c

/-- The public operations of a channel. -/
inductive Op
  | enableReading | disableReading | enableWriting | disableWriting | disableAll | remove
  deriving DecidableEq, Repr

def exec (r : Reactor ι) (c : ι) : Op → Except Assertion (Reactor ι)
  | .enableReading => r.enableReading c
  | .disableReading => r.disableReading c
  | .enableWriting => r.enableWriting c
  | .disableWriting => r.disableWriting c
  | .disableAll => r.disableAll c
  | .remove => r.remove c

/-- The mask an operation leaves in `events_`. -/
def Op.mask : Op → Mask → Mask
  | .enableReading, e => e ||| kReadEvent
  | .disableReading, e => e &&& ~~~kReadEvent
  | .enableWriting, e => e ||| kWriteEvent
  | .disableWriting, e => e &&& ~~~kWriteEvent
  | .disableAll, _ => kNoneEvent
  | .remove, e => e

end Reactor

end SimpleNet
