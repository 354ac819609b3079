import SimpleNet.Lib.Batch
import SimpleNet.Lib.Run
import SimpleNet.Lib.SortedSet
import Mathlib.Data.Prod.Lex
import Mathlib.Algebra.GroupWithZero.Nat
import Mathlib.Algebra.Ring.Int.Defs
import Mathlib.Data.Int.Order.Basic
import Mathlib.Logic.Function.Basic

/-!
# The timers of a loop

`TimerQueue` with the memory its timers live in, the functors by which other threads reach it,
and the timerfd.  `addTimer` and `cancel` are called on the loop's thread, also by the callback
of a timer while `handleRead` goes through its batch, or on another thread, where they queue a
functor.  A step of the loop is one of the calls, one functor, or one of the three parts of
`handleRead`: `getExpired`, the callback of the next timer, `reset`.

A timer is known by its address, which is free again after `delete`, and by its sequence number,
which does not come round.  The clock moves between the steps, and also between the reading of
`now` and the system call that follows it; a step says by how much.
-/

namespace SimpleNet

open Function (update)

/-- What is left of a sum or difference in an `int64_t`. -/
def int64 (i : Int) : Int := i.bmod (2 ^ 64)

/-- `valid()` of a `Timestamp`, which is given by its microseconds. -/
def Timestamp.valid (t : Int) : Bool := 0 < t

instance instNeZeroMicros : NeZero (2 ^ 63) := ⟨by decide⟩

def addTime (timestamp : Int) (delta : Fin (2 ^ 63)) : Int := int64 (timestamp + delta)

structure Timespec where
  tv_sec : Int
  tv_nsec : Int

/-- The time span in microseconds. -/
def Timespec.micros (ts : Timespec) : Int := ts.tv_sec * 1000000 + ts.tv_nsec.tdiv 1000

def howMuchTimeFromNow (now when : Int) : Timespec :=
  let microseconds := int64 (when - now)
  let microseconds := if microseconds < 100 then 100 else microseconds
  ⟨microseconds.tdiv 1000000, microseconds.tmod 1000000 * 1000⟩

/-- A `Timer`; `interval_` is given by the whole microseconds that `addTime` makes of it. -/
structure Timer where
  expiration : Int
  interval : Fin (2 ^ 63)
  repeat_ : Bool
  sequence : Nat

def Timer.restart (t : Timer) (now : Int) : Timer :=
  if t.repeat_ then { t with expiration := addTime now t.interval } else { t with expiration := 0 }

theorem Timer.restart_sequence (t : Timer) (now : Int) :
    (t.restart now).sequence = t.sequence := by
  unfold restart
  split <;> rfl

/-- A `TimerId`, and an element of `activeTimers_`. -/
structure TimerId where
  timer : Nat
  sequence : Nat

/-- An element of `timers_`: when, and the address of the timer. -/
structure Entry where
  when : Int
  timer : Nat

instance : LinearOrder TimerId :=
  LinearOrder.lift' (fun i => toLex (i.timer, i.sequence)) fun ⟨_, _⟩ ⟨_, _⟩ h => by
    obtain ⟨rfl, rfl⟩ := Prod.mk.inj (toLex_inj.mp h)
    rfl

instance : LinearOrder Entry :=
  LinearOrder.lift' (fun e => toLex (e.when, e.timer)) fun ⟨_, _⟩ ⟨_, _⟩ h => by
    obtain ⟨rfl, rfl⟩ := Prod.mk.inj (toLex_inj.mp h)
    rfl

/-- The functors that other threads queue. -/
inductive TimerTask
  | addTimerInLoop (timer : Nat)
  | cancelInLoop (id : TimerId)
  deriving DecidableEq

/-- What a run does with the timers. -/
inductive TimerEvent
  | addTimer (id : TimerId)
  /-- `cancelInLoop` has returned -/
  | cancelInLoop (id : TimerId)
  /-- the callback is called -/
  | run (id : TimerId)
  | delete (id : TimerId)
  deriving DecidableEq

/-- `handleRead` between `getExpired` and `reset`: `now`, `expired`, and what is left of it. -/
structure Handling where
  now : Int
  expired : List Entry
  todo : List Entry

/-- A `timerfd_settime`: when it was called, how much later than the reading of `now`, and when
the descriptor becomes readable. -/
structure Arming where
  armedAt : Int
  drift : Nat
  deadline : Int
  deriving DecidableEq

structure TimerQueue where
  timers : SortedSet Entry
  activeTimers : SortedSet TimerId
  callingExpiredTimers : Bool
  cancelingTimers : SortedSet TimerId
  handling : Option Handling
  functors : Batched TimerTask
  /-- the timers in memory -/
  heap : Nat → Option Timer
  numCreated : Nat
  clock : Int
  /-- `none` when disarmed, or read since it became readable -/
  timerfd : Option Arming
  trace : List TimerEvent
  /-- an assertion failed -/
  aborted : Bool
  /-- a deleted timer was used -/
  dangling : Bool

namespace TimerQueue

def init (clock : Int) : TimerQueue where
  timers := .empty
  activeTimers := .empty
  callingExpiredTimers := false
  cancelingTimers := .empty
  handling := none
  functors := .empty
  heap _ := none
  numCreated := 0
  clock := clock
  timerfd := none
  trace := []
  aborted := false
  dangling := false

/-- The greatest address, of no timer. -/
def UINTPTR_MAX : Nat := 2 ^ 64 - 1

def emit (s : TimerQueue) (e : TimerEvent) : TimerQueue := { s with trace := s.trace ++ [e] }

def check (s : TimerQueue) (p : Prop) [Decidable p] : TimerQueue :=
  if p then s else { s with aborted := true }

/-- `f` of the timer at an address. -/
def deref (s : TimerQueue) (a : Nat) (f : Timer → TimerQueue) : TimerQueue :=
  match s.heap a with
  | some t => f t
  | none => { s with dangling := true }

def new (s : TimerQueue) (a : Nat) (when : Int) (interval : Fin (2 ^ 63)) (repeat_ : Bool) :
    TimerQueue :=
  { s.emit (.addTimer ⟨a, s.numCreated + 1⟩) with
    heap := update s.heap a (some ⟨when, interval, repeat_, s.numCreated + 1⟩)
    numCreated := s.numCreated + 1 }

/-- `delete` of a timer; nothing that its `callback_` binds has a destructor that calls the queue. -/
def delete (s : TimerQueue) (a : Nat) : TimerQueue :=
  s.deref a fun t => { s.emit (.delete ⟨a, t.sequence⟩) with heap := update s.heap a none }

/-- The sizes of the two sets are the same. -/
def Sizes (s : TimerQueue) : Prop := s.timers.size = s.activeTimers.size

instance (s : TimerQueue) : Decidable s.Sizes := inferInstanceAs (Decidable (_ = _))

def resetTimerfd (s : TimerQueue) (drift : Nat) (expiration : Int) : TimerQueue :=
  let armedAt := s.clock + drift
  { s with
    clock := armedAt
    timerfd := some ⟨armedAt, drift, armedAt + (howMuchTimeFromNow s.clock expiration).micros⟩ }

/-- `read` of the timerfd. -/
def readTimerfd (s : TimerQueue) : TimerQueue :=
  match s.timerfd with
  | some x => if x.deadline ≤ s.clock then { s with timerfd := none } else s
  | none => s

/-- `TimerQueue::insert`, without its result. -/
def insert (s : TimerQueue) (a : Nat) : TimerQueue :=
  s.deref a fun t =>
    let s := s.check s.Sizes
    let timers := s.timers.insert ⟨t.expiration, a⟩
    let s := { s with timers := timers.1 }.check (timers.2 = true)
    let active := s.activeTimers.insert ⟨a, t.sequence⟩
    let s := { s with activeTimers := active.1 }.check (active.2 = true)
    s.check s.Sizes

/-- The result of `TimerQueue::insert`. -/
def earliestChanged (s : TimerQueue) (a : Nat) : Bool :=
  match s.timers.first, s.heap a with
  | some e, some t => t.expiration < e.when
  | _, _ => true

def addTimerInLoop (s : TimerQueue) (drift : Nat) (a : Nat) : TimerQueue :=
  let earliestChanged := s.earliestChanged a
  let s := s.insert a
  if earliestChanged then s.deref a fun t => s.resetTimerfd drift t.expiration else s

def cancelInLoop (s : TimerQueue) (id : TimerId) : TimerQueue :=
  let s := s.check s.Sizes
  let s :=
    if id ∈ s.activeTimers then
      s.deref id.timer fun t =>
        let timers := s.timers.erase ⟨t.expiration, id.timer⟩
        let s := ({ s with timers := timers.1 }.check (timers.2 = 1)).delete id.timer
        { s with activeTimers := (s.activeTimers.erase id).1 }
    else if s.callingExpiredTimers then
      { s with cancelingTimers := (s.cancelingTimers.insert id).1 }
    else s
  (s.check s.Sizes).emit (.cancelInLoop id)

/-- The second loop of `getExpired`. -/
def eraseActive (s : TimerQueue) (e : Entry) : TimerQueue :=
  s.deref e.timer fun t =>
    let active := s.activeTimers.erase ⟨e.timer, t.sequence⟩
    { s with activeTimers := active.1 }.check (active.2 = 1)

def sentry (now : Int) : Entry := ⟨now, UINTPTR_MAX⟩

/-- `getExpired`: the queue, and what it returns. -/
def getExpired (s : TimerQueue) (now : Int) : TimerQueue × List Entry :=
  let s := s.check s.Sizes
  let s := s.check (∀ e ∈ (s.timers.upper (sentry now)).first, now < e.when)
  let expired := s.timers.below (sentry now)
  let s := expired.foldl eraseActive { s with timers := s.timers.upper (sentry now) }
  (s.check s.Sizes, expired)

/-- `handleRead` up to its first callback; `delay` is what passes until the descriptor is read. -/
def handleRead (s : TimerQueue) (delay : Nat) : TimerQueue :=
  let now := s.clock
  let s := { s with clock := s.clock + delay }.readTimerfd
  let (s, expired) := s.getExpired now
  { s with
    callingExpiredTimers := true
    cancelingTimers := .empty
    handling := some ⟨now, expired, expired⟩ }

/-- The loop of `reset`. -/
def resetOne (now : Int) (s : TimerQueue) (e : Entry) : TimerQueue :=
  s.deref e.timer fun t =>
    if t.repeat_ ∧ ⟨e.timer, t.sequence⟩ ∉ s.cancelingTimers then
      { s with heap := update s.heap e.timer (some (t.restart now)) }.insert e.timer
    else s.delete e.timer

def reset (s : TimerQueue) (drift : Nat) (expired : List Entry) (now : Int) : TimerQueue :=
  let s := expired.foldl (resetOne now) s
  match s.timers.first with
  | some e => s.deref e.timer fun t =>
      if Timestamp.valid t.expiration then s.resetTimerfd drift t.expiration else s
  | none => s

/-- A queued functor. -/
def runTask (s : TimerQueue) (drift : Nat) : TimerTask → TimerQueue
  | .addTimerInLoop a => s.addTimerInLoop drift a
  | .cancelInLoop id => s.cancelInLoop id

/-- The loop's thread is in code of the user: in a handler, a functor, or the callback of a
timer. -/
def userCode (s : TimerQueue) : Bool :=
  match s.handling with
  | some h => h.todo != h.expired
  | none => true

inductive Act
  /-- `addTimer`, on the loop's thread or on another one -/
  | addTimer (inLoop : Bool) (a : Nat) (when : Int) (interval : Fin (2 ^ 63)) (repeat_ : Bool)
      (drift : Nat)
  | cancel (inLoop : Bool) (id : TimerId)
  | doPendingFunctors
  /-- the next functor of the batch -/
  | runFunctor (drift : Nat)
  | handleRead (delay : Nat)
  /-- the callback of the next expired timer -/
  | runTimer
  /-- the end of `handleRead` -/
  | reset (drift : Nat)
  | tick (n : Nat)

def step (s : TimerQueue) (a : Act) : Option TimerQueue :=
  if s.aborted ∨ s.dangling then none else
  match a with
  | .addTimer inLoop a when interval repeat_ drift =>
    -- the allocator returns memory that is not in use
    if (s.heap a).isNone ∧ 0 < a ∧ a < UINTPTR_MAX then
      let s' := s.new a when interval repeat_
      if inLoop then
        if s.userCode then some (s'.addTimerInLoop drift a) else none
      else some { s' with functors := s.functors.push (.addTimerInLoop a) }
    else none
  | .cancel inLoop id =>
    if inLoop then
      if s.userCode then some (s.cancelInLoop id) else none
    else some { s with functors := s.functors.push (.cancelInLoop id) }
  | .doPendingFunctors =>
    if s.handling.isNone ∧ s.functors.rest = [] then some { s with functors := s.functors.swap }
    else none
  | .runFunctor drift =>
    match s.functors.rest with
    | f :: _ =>
      if s.handling.isNone then some ({ s with functors := s.functors.tail }.runTask drift f)
      else none
    | [] => none
  | .handleRead delay =>
    if s.handling.isNone ∧ s.functors.rest = [] then some (s.handleRead delay) else none
  | .runTimer =>
    match s.handling with
    | some ⟨now, expired, e :: todo⟩ =>
      some (s.deref e.timer fun t =>
        { s.emit (.run ⟨e.timer, t.sequence⟩) with handling := some ⟨now, expired, todo⟩ })
    | _ => none
  | .reset drift =>
    match s.handling with
    | some ⟨now, expired, []⟩ =>
      some { { s with callingExpiredTimers := false }.reset drift expired now with handling := none }
    | _ => none
  | .tick n => some { s with clock := s.clock + n }

end TimerQueue

end SimpleNet
