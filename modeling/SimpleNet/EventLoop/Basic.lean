import SimpleNet.Lib.Batch
import SimpleNet.Lib.Run
import Mathlib.Algebra.Group.Nat.Defs
import Mathlib.Logic.Function.Basic

/-!
# The event loop

`EventLoop::loop` with its queue of functors, its `quit_` flag and the eventfd by which other
threads wake it.  The loop thread goes through the phases of `loop()`; in some of them it runs
code of the user, which may call the loop's functions.  Other threads call `queueInLoop` and
`quit`, whose `wakeup()` is a step of its own.  What a functor does is not modelled: it is the
user's code in the phase in which it runs.

`pushed`, `started` and `swapped` are history: no code reads them.
-/

namespace SimpleNet

open Function (update)

/-- Where the loop thread is. -/
inductive Phase
  /-- not in `loop()`: user code before or after it -/
  | outside
  /-- `loop()`, before `quit_ = false` -/
  | entered
  /-- at `while(!quit_)` -/
  | test
  /-- in `poller_->poll()` -/
  | poll
  /-- the handlers of the active channels; `woken` if `handleRead` is still among them -/
  | handling (woken : Bool)
  /-- `doPendingFunctors` after its swap, between two functors or in one -/
  | functors (running : Bool)
  /-- the end of `doPendingFunctors`, where the vector of functors is destroyed -/
  | dropping
  deriving DecidableEq, Repr

/-- The phases in which the loop thread may be in code of the user. -/
def Phase.inUser : Phase → Bool
  | .outside | .handling _ | .functors true | .dropping => true
  | _ => false

/-- The loop thread is between `poll` and `doPendingFunctors`. -/
def Phase.handles : Phase → Bool
  | .handling _ => true
  | _ => false

/-- The loop thread is between the swap and the end of the batch. -/
def Phase.inBatch : Phase → Bool
  | .functors _ => true
  | _ => false

/-- What another thread is in the middle of: a call whose `wakeup()` is to come. -/
inductive Pending
  | idle | queueInLoop | quit
  deriving DecidableEq, Repr

structure EventLoop (φ : Type) where
  phase : Phase
  looping : Bool
  quit : Bool
  callingPendingFunctors : Bool
  /-- the rest of `functors`, and `pendingFunctors_` -/
  functors : Batched φ
  /-- the counter of the eventfd -/
  wakeups : Nat
  threads : Nat → Pending
  aborted : Bool
  /-- the functors in the order of their `push_back` -/
  pushed : List φ
  /-- the functors that were started, in order -/
  started : List φ
  /-- how many functors had been queued at the last swap -/
  swapped : Nat

namespace EventLoop

variable {φ : Type}

/-- `EventLoop::EventLoop`. -/
def init : EventLoop φ where
  phase := .outside
  looping := false
  quit := false
  callingPendingFunctors := false
  functors := .empty
  wakeups := 0
  threads _ := .idle
  aborted := false
  pushed := []
  started := []
  swapped := 0

/-- The largest value of an eventfd counter. -/
def eventfdMax : Nat := 2 ^ 64 - 2

/-- `EventLoop::wakeup`; a full counter is left as it is (`EAGAIN`). -/
def wakeup (s : EventLoop φ) : EventLoop φ :=
  { s with wakeups := if s.wakeups < eventfdMax then s.wakeups + 1 else s.wakeups }

/-- `pendingFunctors_.push_back(cb)`. -/
def pushBack (s : EventLoop φ) (f : φ) : EventLoop φ :=
  { s with functors := s.functors.push f, pushed := s.pushed ++ [f] }

/-- `EventLoop::queueInLoop` on the loop thread. -/
def queueInLoop (s : EventLoop φ) (f : φ) : EventLoop φ :=
  if s.callingPendingFunctors then (s.pushBack f).wakeup else s.pushBack f

/-- The start of `EventLoop::doPendingFunctors`, up to its swap. -/
def doPendingFunctors (s : EventLoop φ) : EventLoop φ :=
  { s with
    phase := .functors false
    callingPendingFunctors := true
    functors := s.functors.swap
    swapped := s.pushed.length }

/-- The steps of the loop thread and of other threads. -/
inductive Act (φ : Type)
  /-- user code on the loop thread calls `loop()` -/
  | loop
  /-- `quit_ = false` -/
  | reset
  | test
  /-- `poll` returns; `woken` if it reports the wakeup channel -/
  | poll (woken : Bool)
  /-- the handler of the wakeup channel -/
  | handleRead
  | doPendingFunctors
  /-- the next functor starts -/
  | run
  /-- the functor returns -/
  | ret
  /-- `callingPendingFunctors_ = false` -/
  | finish
  /-- `doPendingFunctors` returns -/
  | leave
  /-- user code on the loop thread -/
  | queueInLoop (f : φ)
  | quit
  /-- another thread: `push_back` of `queueInLoop`, `quit_ = true` of `quit`, and `wakeup()` -/
  | pushBack (n : Nat) (f : φ)
  | setQuit (n : Nat)
  | wakeup (n : Nat)
  deriving DecidableEq, Repr

def step (s : EventLoop φ) (a : Act φ) : Option (EventLoop φ) :=
  if s.aborted then none else
  match a with
  | .loop =>
    if s.phase.inUser then
      if s.looping then some { s with aborted := true }
      else some { s with phase := .entered, looping := true }
    else none
  | .reset => if s.phase = .entered then some { s with phase := .test, quit := false } else none
  | .test =>
    if s.phase = .test then
      if s.quit then some { s with phase := .outside, looping := false }
      else some { s with phase := .poll }
    else none
  | .poll woken =>
    if s.phase = .poll ∧ (woken = true → 0 < s.wakeups) then
      some { s with phase := .handling woken }
    else none
  | .handleRead =>
    if s.phase = .handling true then some { s with phase := .handling false, wakeups := 0 }
    else none
  | .doPendingFunctors =>
    if s.phase = .handling false then some s.doPendingFunctors else none
  | .run =>
    match s.phase, s.functors.rest with
    | .functors false, f :: _ =>
      some { s with
        phase := .functors true
        functors := s.functors.tail
        started := s.started ++ [f] }
    | _, _ => none
  | .ret => if s.phase = .functors true then some { s with phase := .functors false } else none
  | .finish =>
    if s.phase = .functors false ∧ s.functors.rest = [] then
      some { s with phase := .dropping, callingPendingFunctors := false }
    else none
  | .leave => if s.phase = .dropping then some { s with phase := .test } else none
  | .queueInLoop f => if s.phase.inUser then some (s.queueInLoop f) else none
  | .quit => if s.phase.inUser then some { s with quit := true } else none
  | .pushBack n f =>
    if s.threads n = .idle then
      some { s.pushBack f with threads := update s.threads n .queueInLoop }
    else none
  | .setQuit n =>
    if s.threads n = .idle then
      some { s with quit := true, threads := update s.threads n .quit }
    else none
  | .wakeup n =>
    if s.threads n = .idle then none
    else some { s.wakeup with threads := update s.threads n .idle }

/-! ### What a step can do -/

/-- The steps, one constructor for each branch of `step`. -/
inductive Stepped (s : EventLoop φ) : Act φ → EventLoop φ → Prop
  | nested (hu : s.phase.inUser = true) (hl : s.looping = true) :
      Stepped s .loop { s with aborted := true }
  | loop (hu : s.phase.inUser = true) (hl : s.looping = false) :
      Stepped s .loop { s with phase := .entered, looping := true }
  | reset (hp : s.phase = .entered) : Stepped s .reset { s with phase := .test, quit := false }
  | stop (hp : s.phase = .test) (hq : s.quit = true) :
      Stepped s .test { s with phase := .outside, looping := false }
  | goOn (hp : s.phase = .test) (hq : s.quit = false) : Stepped s .test { s with phase := .poll }
  | poll {woken : Bool} (hp : s.phase = .poll) (hw : woken = true → 0 < s.wakeups) :
      Stepped s (.poll woken) { s with phase := .handling woken }
  | handleRead (hp : s.phase = .handling true) :
      Stepped s .handleRead { s with phase := .handling false, wakeups := 0 }
  | doPendingFunctors (hp : s.phase = .handling false) :
      Stepped s .doPendingFunctors s.doPendingFunctors
  | run {f : φ} {fs : List φ} (hp : s.phase = .functors false) (hr : s.functors.rest = f :: fs) :
      Stepped s .run { s with
        phase := .functors true
        functors := s.functors.tail
        started := s.started ++ [f] }
  | ret (hp : s.phase = .functors true) : Stepped s .ret { s with phase := .functors false }
  | finish (hp : s.phase = .functors false) (hr : s.functors.rest = []) :
      Stepped s .finish { s with phase := .dropping, callingPendingFunctors := false }
  | leave (hp : s.phase = .dropping) : Stepped s .leave { s with phase := .test }
  | queueInLoop {f : φ} (hu : s.phase.inUser = true) : Stepped s (.queueInLoop f) (s.queueInLoop f)
  | quit (hu : s.phase.inUser = true) : Stepped s .quit { s with quit := true }
  | pushBack {n : Nat} {f : φ} (ht : s.threads n = .idle) :
      Stepped s (.pushBack n f) { s.pushBack f with threads := update s.threads n .queueInLoop }
  | setQuit {n : Nat} (ht : s.threads n = .idle) :
      Stepped s (.setQuit n) { s with quit := true, threads := update s.threads n .quit }
  | wakeup {n : Nat} (ht : s.threads n ≠ .idle) :
      Stepped s (.wakeup n) { s.wakeup with threads := update s.threads n .idle }

theorem step_stepped {s t : EventLoop φ} {a : Act φ} (h : step s a = some t) : Stepped s a t := by
  unfold step at h
  split at h
  · cases h
  cases a with
  | loop =>
    simp only at h
    split at h
    · next hu =>
      split at h
      · next hl => exact Option.some.inj h ▸ .nested hu hl
      · next hl => exact Option.some.inj h ▸ .loop hu ((Bool.not_eq_true _).mp hl)
    · cases h
  | test =>
    simp only at h
    split at h
    · next hp =>
      split at h
      · next hq => exact Option.some.inj h ▸ .stop hp hq
      · next hq => exact Option.some.inj h ▸ .goOn hp ((Bool.not_eq_true _).mp hq)
    · cases h
  | run =>
    simp only at h
    split at h
    · next hp hr => exact Option.some.inj h ▸ .run hp hr
    · cases h
  | wakeup n =>
    simp only at h
    split at h
    · cases h
    · next ht => exact Option.some.inj h ▸ .wakeup ht
  | _ =>
    simp only [Option.ite_none_right_eq_some, Option.some.injEq] at h
    obtain ⟨hg, rfl⟩ := h
    first
    | exact .reset hg
    | exact .poll hg.1 hg.2
    | exact .handleRead hg
    | exact .doPendingFunctors hg
    | exact .ret hg
    | exact .finish hg.1 hg.2
    | exact .leave hg
    | exact .queueInLoop hg
    | exact .quit hg
    | exact .pushBack hg
    | exact .setQuit hg

end EventLoop

end SimpleNet
