import SimpleNet.Lib.Locks

/-!
# The mutexes of the library

What the functions of the library do with its mutexes: `mutex_` of `EventLoop`, of `EventLoopThread`
and of `TcpClient`.  A `MutexLockGuard` is a block, and an `if` is taken freely.  What calls a
callback, a functor or a handler may call any function here: user code calls the public ones in any
order, and the library's own functors and handlers are among the functions.

`disconnect` is the one function that calls out of a block, and it is `shutdown` that it calls.
`mutexes_live`: so no interleaving of any threads comes to a deadlock.
-/

namespace SimpleNet.LockOrder

open Locks

/-- The mutexes of loops, of threads with a loop, and of clients. -/
inductive Mutex (Λ ε κ : Type)
  | eventLoop (l : Λ)
  | eventLoopThread (e : ε)
  | tcpClient (c : κ)
  deriving DecidableEq

inductive EventLoopFn
  | loop | doPendingFunctors | quit | wakeup | queueSize | queueInLoop
  | runAt | runAfter | runEvery | cancel

inductive TimerQueueFn
  | addTimer | addTimerInLoop | cancel | cancelInLoop | handleRead

inductive TcpConnectionFn
  | send | sendInLoop | shutdown | shutdownInLoop
  | forceClose | forceCloseWithDelay | forceCloseInLoop
  | startRead | startReadInLoop | stopRead | stopReadInLoop
  | setCloseCallback | connectEstablished | connectDestroyed
  | handleRead | handleWrite | handleClose

inductive ConnectorFn
  | start | startInLoop | stop | stopInLoop | connect | restart | connecting
  | removeAndResetChannel | resetChannel | handleWrite | handleError | retry

inductive TcpClientFn
  | destroy | connect | disconnect | stop | connection | newConnection | removeConnection
  | detailremoveConnection | detailremoveConnector

/-- The functions of a server, with the loops and threads that they come to. -/
inductive TcpServerFn (Λ ε : Type)
  | destroy (loops : List Λ) (threads : List (ε × Λ))
  | start (threads : List ε)
  | poolStart (threads : List ε)
  | newConnection (ioLoop : Λ)
  | removeConnection (ioLoop : Λ)
  | removeConnectionInLoop (ioLoop : Λ)
  | listen
  | handleRead

inductive EventLoopThreadFn (Λ : Type)
  | startLoop
  | threadFunc (l : Λ)
  | destroy (l : Λ)

/-- The functions of an object whose `loop_` is `l`, and those of a client and of a thread. -/
inductive Fn (Λ ε κ : Type)
  | eventLoop (l : Λ) (f : EventLoopFn)
  | runInLoop (l : Λ) (cb : Fn Λ ε κ)
  | timerQueue (l : Λ) (f : TimerQueueFn)
  | tcpConnection (l : Λ) (f : TcpConnectionFn)
  | connector (l : Λ) (f : ConnectorFn)
  | tcpClient (c : κ) (f : TcpClientFn)
  | tcpServer (l : Λ) (f : TcpServerFn Λ ε)
  | eventLoopThread (e : ε) (f : EventLoopThreadFn Λ)

variable {Λ ε κ : Type}

abbrev Code (Λ ε κ : Type) := Stmt (Mutex Λ ε κ) (Fn Λ ε κ)

/-- A callback: any calls, in any order. -/
def callback : Code Λ ε κ := .star .any

/-- `if (..) a`. -/
def when (a : Code Λ ε κ) : Code Λ ε κ := .alt .skip a

def queueInLoop (l : Λ) : Code Λ ε κ := .call (.eventLoop l .queueInLoop)

def EventLoopFn.body (l : Λ) : EventLoopFn → Code Λ ε κ
  | .loop =>
    -- `poll`, the handlers of the active channels, the functors
    .star (.seq .rest (.seq callback (.call (.eventLoop l .doPendingFunctors))))
  | .doPendingFunctors => .seq (.guard (.eventLoop l) .skip) callback
  | .quit => when (.call (.eventLoop l .wakeup))
  | .wakeup => .skip
  | .queueSize => .guard (.eventLoop l) .skip
  | .queueInLoop =>
    .seq (.guard (.eventLoop l) .skip) (when (.call (.eventLoop l .wakeup)))
  | .runAt | .runEvery => .call (.timerQueue l .addTimer)
  | .runAfter => .call (.eventLoop l .runAt)
  | .cancel => .call (.timerQueue l .cancel)

def TimerQueueFn.body (l : Λ) : TimerQueueFn → Code Λ ε κ
  | .addTimer => .call (.runInLoop l (.timerQueue l .addTimerInLoop))
  | .addTimerInLoop => .skip
  | .cancel => .call (.runInLoop l (.timerQueue l .cancelInLoop))
  | .cancelInLoop => .skip
  | .handleRead => callback

def TcpConnectionFn.body (l : Λ) : TcpConnectionFn → Code Λ ε κ
  | .send =>
    when (.alt (.call (.tcpConnection l .sendInLoop))
      (.call (.runInLoop l (.tcpConnection l .sendInLoop))))
  | .sendInLoop =>
    -- `writeCompleteCallback_` and `highWaterMarkCallback_` are queued
    when (.seq (when (queueInLoop l)) (when (queueInLoop l)))
  | .shutdown =>
    -- the condition is an assignment of `kConnected`
    .call (.runInLoop l (.tcpConnection l .shutdownInLoop))
  | .shutdownInLoop => .skip
  | .forceClose => when (queueInLoop l)
  | .forceCloseWithDelay => when (.call (.eventLoop l .runAfter))
  | .forceCloseInLoop => when (.call (.tcpConnection l .handleClose))
  | .startRead => .call (.runInLoop l (.tcpConnection l .startReadInLoop))
  | .startReadInLoop => .skip
  | .stopRead => .call (.runInLoop l (.tcpConnection l .stopReadInLoop))
  | .stopReadInLoop => .skip
  | .setCloseCallback => .skip
  | .connectEstablished => callback
  | .connectDestroyed => when callback
  | .handleRead =>
    -- `messageCallback_`, `handleClose` or `handleError`
    .alt callback (when (.call (.tcpConnection l .handleClose)))
  | .handleWrite =>
    when (.seq (when (queueInLoop l)) (when (.call (.tcpConnection l .shutdownInLoop))))
  | .handleClose =>
    -- `connectionCallback_`, and `closeCallback_` of the owner
    .seq callback callback

def ConnectorFn.body (l : Λ) : ConnectorFn → Code Λ ε κ
  | .start => .call (.runInLoop l (.connector l .startInLoop))
  | .startInLoop => when (.call (.connector l .connect))
  | .stop => queueInLoop l
  | .stopInLoop =>
    when (.seq (.call (.connector l .removeAndResetChannel)) (.call (.connector l .retry)))
  | .connect => when (.alt (.call (.connector l .connecting)) (.call (.connector l .retry)))
  | .restart => .call (.connector l .startInLoop)
  | .connecting => .skip
  | .removeAndResetChannel => queueInLoop l
  | .resetChannel => .skip
  | .handleWrite =>
    when (.seq (.call (.connector l .removeAndResetChannel))
      (.alt (.call (.connector l .retry)) (when callback)))
  | .handleError =>
    when (.seq (.call (.connector l .removeAndResetChannel)) (.call (.connector l .retry)))
  | .retry => when (.call (.eventLoop l .runAfter))

/-- The client `c` in the loop `l`. -/
def TcpClientFn.body (l : Λ) (c : κ) : TcpClientFn → Code Λ ε κ
  | .destroy =>
    .seq (.guard (.tcpClient c) .skip)
      (.alt
        (.seq (.call (.runInLoop l (.tcpConnection l .setCloseCallback)))
          (when (.call (.tcpConnection l .forceClose))))
        (.seq (.call (.connector l .stop)) (.call (.eventLoop l .runAfter))))
  | .connect => .call (.connector l .start)
  | .disconnect => .guard (.tcpClient c) (when (.call (.tcpConnection l .shutdown)))
  | .stop => .call (.connector l .stop)
  | .connection => .guard (.tcpClient c) .skip
  | .newConnection =>
    .seq (.guard (.tcpClient c) .skip) (.call (.tcpConnection l .connectEstablished))
  | .removeConnection =>
    .seq (.guard (.tcpClient c) .skip)
      (.seq (queueInLoop l) (when (.call (.connector l .restart))))
  | .detailremoveConnection => queueInLoop l
  | .detailremoveConnector => .skip

/-- One after the other. -/
def each {α : Type} (f : α → Code Λ ε κ) : List α → Code Λ ε κ
  | [] => .skip
  | a :: as => .seq (f a) (each f as)

def TcpServerFn.body (l : Λ) : TcpServerFn Λ ε → Code Λ ε κ
  | .destroy loops threads =>
    -- the connections, and then the threads of `threadPool_`
    .seq (each (fun io => .call (.runInLoop io (.tcpConnection io .connectDestroyed))) loops)
      (each (fun x => .call (.eventLoopThread x.1 (.destroy x.2))) threads)
  | .start threads =>
    when (.seq (.call (.tcpServer l (.poolStart threads)))
      (.call (.runInLoop l (.tcpServer l .listen))))
  | .poolStart threads =>
    .seq (each (fun e => .call (.eventLoopThread e .startLoop)) threads) (when callback)
  | .newConnection io => .call (.runInLoop io (.tcpConnection io .connectEstablished))
  | .removeConnection io => .call (.runInLoop l (.tcpServer l (.removeConnectionInLoop io)))
  | .removeConnectionInLoop io => queueInLoop io
  | .listen => .skip
  | .handleRead => when callback

/-- `while (..) wait();` in a block of its own: each `wait()` leaves the block, sleeps, and enters
it again. -/
def await (m : Mutex Λ ε κ) : Code Λ ε κ :=
  .seq (.star (.seq (.guard m .skip) .rest)) (.guard m .skip)

def EventLoopThreadFn.body (e : ε) : EventLoopThreadFn Λ → Code Λ ε κ
  | .startLoop =>
    -- `latch_.wait()` in `Thread::start`
    .seq .rest (await (.eventLoopThread e))
  | .threadFunc l =>
    .seq (when callback)
      (.seq (.guard (.eventLoopThread e) .skip) (.call (.eventLoop l .loop)))
  | .destroy l =>
    -- `quit()` and `join()`
    when (.seq (.call (.eventLoop l .quit)) .rest)

/-- The functions of the library, where the client `c` is in the loop `loopOf c`. -/
def body (loopOf : κ → Λ) : Fn Λ ε κ → Code Λ ε κ
  | .eventLoop l f => f.body l
  | .runInLoop l cb => .alt (.call cb) (queueInLoop l)
  | .timerQueue l f => f.body l
  | .tcpConnection l f => f.body l
  | .connector l f => f.body l
  | .tcpClient c f => f.body (loopOf c) c
  | .tcpServer l f => f.body l
  | .eventLoopThread e f => f.body e

/-! ### The order -/

def rank : Mutex Λ ε κ → Nat
  | .tcpClient _ => 0
  | .eventLoop _ | .eventLoopThread _ => 1

/-- A function that may be called with the mutex of a client held takes only mutexes of loops. -/
def floor : Fn Λ ε κ → Nat
  | .eventLoop _ .queueInLoop => 1
  | .eventLoop _ .wakeup => 2
  | .runInLoop _ cb => min 1 (floor cb)
  | .tcpConnection _ .shutdown => 1
  | .tcpConnection _ .shutdownInLoop => 2
  | _ => 0

def cost : Fn Λ ε κ → Nat
  | .eventLoop _ .queueInLoop => 7
  | .eventLoop _ .wakeup => 1
  | .runInLoop _ cb => max (cost cb) 7 + 2
  | .tcpConnection _ .shutdown => 10
  | .tcpConnection _ .shutdownInLoop => 1
  | _ => 0

def order : Order (Mutex Λ ε κ) (Fn Λ ε κ) := ⟨rank, floor, cost, 2, 13⟩

section

variable {n : Nat} {a b : Code Λ ε κ} {m : Mutex Λ ε κ} {f : Fn Λ ε κ} {l : Λ}

@[simp] theorem keeps_skip : order.Keeps n (.skip : Code Λ ε κ) := trivial

@[simp] theorem keeps_seq :
    order.Keeps n (.seq a b) ↔ order.Keeps n a ∧ order.Keeps n b := Iff.rfl

@[simp] theorem keeps_alt :
    order.Keeps n (.alt a b) ↔ order.Keeps n a ∧ order.Keeps n b := Iff.rfl

@[simp] theorem keeps_star : order.Keeps n (.star a) ↔ n = 0 ∧ order.Keeps 0 a := Iff.rfl

@[simp] theorem keeps_call : order.Keeps n (.call f) ↔ n ≤ floor f := Iff.rfl

@[simp] theorem keeps_rest : order.Keeps n (.rest : Code Λ ε κ) ↔ n = 0 := Iff.rfl

@[simp] theorem keeps_guard : order.Keeps n (.guard m a) ↔
    n ≤ rank m ∧ order.size a < 13 ∧ order.Keeps (rank m + 1) a := Iff.rfl

@[simp] theorem keeps_callback : order.Keeps n (callback : Code Λ ε κ) ↔ n = 0 :=
  ⟨And.left, fun h => ⟨h, rfl⟩⟩

@[simp] theorem keeps_when : order.Keeps n (when a) ↔ order.Keeps n a := and_iff_right trivial

@[simp] theorem keeps_queueInLoop : order.Keeps n (queueInLoop l : Code Λ ε κ) ↔ n ≤ 1 := Iff.rfl

@[simp] theorem cost_order : order.cost f = cost f := rfl

theorem keeps_each {α : Type} {g : α → Code Λ ε κ} (h : ∀ x, order.Keeps 0 (g x)) :
    ∀ xs, order.Keeps 0 (each g xs)
  | [] => trivial
  | x :: xs => ⟨h x, keeps_each h xs⟩

end

attribute [local simp] floor rank

theorem EventLoopFn.keeps (l : Λ) (f : EventLoopFn) :
    order.Keeps (floor (.eventLoop l f : Fn Λ ε κ)) (f.body l : Code Λ ε κ) := by
  cases f <;> simp [body, Order.size]

theorem TimerQueueFn.keeps (l : Λ) (f : TimerQueueFn) :
    order.Keeps (floor (.timerQueue l f : Fn Λ ε κ)) (f.body l : Code Λ ε κ) := by
  cases f <;> simp [body]

theorem TcpConnectionFn.keeps (l : Λ) (f : TcpConnectionFn) :
    order.Keeps (floor (.tcpConnection l f : Fn Λ ε κ)) (f.body l : Code Λ ε κ) := by
  cases f <;> simp [body]

theorem ConnectorFn.keeps (l : Λ) (f : ConnectorFn) :
    order.Keeps (floor (.connector l f : Fn Λ ε κ)) (f.body l : Code Λ ε κ) := by
  cases f <;> simp [body]

/-- `disconnect` calls `shutdown` with the mutex of the client. -/
theorem TcpClientFn.keeps (l : Λ) (c : κ) (f : TcpClientFn) :
    order.Keeps (floor (.tcpClient c f : Fn Λ ε κ)) (f.body l c : Code Λ ε κ) := by
  cases f <;> simp [body, Order.size, when, cost]

theorem TcpServerFn.keeps (l : Λ) (f : TcpServerFn Λ ε) :
    order.Keeps (floor (.tcpServer l f : Fn Λ ε κ)) (f.body l : Code Λ ε κ) := by
  cases f with
  | destroy loops threads =>
    exact ⟨keeps_each (fun _ => Nat.zero_le _) loops, keeps_each (fun _ => Nat.zero_le _) threads⟩
  | poolStart threads =>
    exact ⟨keeps_each (fun _ => Nat.zero_le _) threads, keeps_when.mpr (keeps_callback.mpr rfl)⟩
  | _ => simp [body]

theorem EventLoopThreadFn.keeps (e : ε) (f : EventLoopThreadFn Λ) :
    order.Keeps (floor (.eventLoopThread e f : Fn Λ ε κ)) (f.body e : Code Λ ε κ) := by
  cases f <;> simp [body, await, Order.size]

theorem size_body_le (loopOf : κ → Λ) (f : Fn Λ ε κ) (hf : 0 < floor f) :
    order.size (body loopOf f) ≤ cost f := by
  cases f with
  | eventLoop l f =>
    cases f with
    | queueInLoop | wakeup => simp [body, EventLoopFn.body, Order.size, when, cost]
    | _ => exact absurd hf (Nat.lt_irrefl 0)
  | runInLoop l cb =>
    simp only [body, Order.size, queueInLoop, cost_order, cost]
    omega
  | tcpConnection l f =>
    cases f with
    | shutdown | shutdownInLoop => simp [body, TcpConnectionFn.body, Order.size, cost]
    | _ => exact absurd hf (Nat.lt_irrefl 0)
  | _ => exact absurd hf (Nat.lt_irrefl 0)

theorem obeyed (loopOf : κ → Λ) :
    (order : Order (Mutex Λ ε κ) (Fn Λ ε κ)).Obeyed (body loopOf) where
  keeps f := by
    cases f with
    | eventLoop l f => exact f.keeps l
    | runInLoop l cb => exact ⟨Nat.min_le_right _ _, Nat.min_le_left _ _⟩
    | timerQueue l f => exact f.keeps l
    | tcpConnection l f => exact f.keeps l
    | connector l f => exact f.keeps l
    | tcpClient c f => exact f.keeps (loopOf c) c
    | tcpServer l f => exact f.keeps l
    | eventLoopThread e f => exact f.keeps e
  size_le := size_body_le loopOf
  rank_lt m := by cases m <;> simp [order]

/-! ### Any threads -/

theorem rank_eq_zero {m : Mutex Λ ε κ} : rank m = 0 ↔ ∃ c, m = .tcpClient c := by
  cases m <;> simp

variable {θ : Type} [DecidableEq θ] [DecidableEq Λ] [DecidableEq ε] [DecidableEq κ]

structure Live (loopOf : κ → Λ) (s : State θ (Mutex Λ ε κ) (Fn Λ ε κ)) : Prop where
  /-- no thread waits for itself -/
  self : ∀ t m, s.AtGuard t m → s.owner m ≠ some t
  /-- who owns two mutexes owns that of a client and another -/
  nested : ∀ t m n, s.owner m = some t → s.owner n = some t → m ≠ n →
    ((∃ c, m = .tcpClient c) ↔ ¬ ∃ c, n = .tcpClient c)
  /-- no mutex is owned in a callback, in `poll`, in `wait()`, in `join()`, or by an ended thread -/
  quiet : ∀ t, s.AtRest t → ¬ s.Owns t
  /-- while a mutex is owned, some owner can go on -/
  canGo : ∀ t m, s.owner m = some t → ∃ u n, s.owner n = some u ∧ s.CanGo (body loopOf) u
  /-- a thread that goes on gives up its mutexes -/
  brief : ∀ t bs s', Steps.run (State.step (body loopOf)) s bs = some s' →
    (∀ x ∈ Steps.trail (State.step (body loopOf)) s bs, x.1.Owns t) → bs.countP (·.1 = t) ≤ 13

/-- **No deadlock.**  In every interleaving of threads that call what they like. -/
theorem mutexes_live (loopOf : κ → Λ) {as : List (θ × Pick (Fn Λ ε κ))}
    {s : State θ (Mutex Λ ε κ) (Fn Λ ε κ)}
    (h : Steps.run (State.step (body loopOf)) State.init as = some s) : Live loopOf s := by
  have hO : (order : Order (Mutex Λ ε κ) (Fn Λ ε κ)).Obeyed (body loopOf) := obeyed loopOf
  have hs := State.orderly_run hO h
  exact {
    self := fun t m hg ho => Nat.lt_irrefl _ (State.blocked_above hs hg ho)
    nested := by
      intro t m n hm hn hne
      have hr : rank m ≠ rank n := State.rank_ne hs hm hn hne
      have h1 : rank m < 2 := hO.rank_lt m
      have h2 : rank n < 2 := hO.rank_lt n
      rw [← rank_eq_zero, ← rank_eq_zero]
      omega
    quiet := fun t hr ⟨m, ho⟩ => State.quiet hs hr m ho
    canGo := fun t m ho => State.no_deadlock hO hs ho
    brief := fun t bs s' hr hx => State.countP_le hO hs hr hx }

/-- Thread 2 waits for the mutex of a client, which thread 0 has in `disconnect`; thread 0 waits
for the mutex of the loop, which thread 1 has in `queueSize`. -/
theorem mutexes_live_chain : ∃ (as : List (Fin 3 × Pick (Fn Unit Unit Unit)))
    (s : State (Fin 3) (Mutex Unit Unit Unit) (Fn Unit Unit Unit)),
    Steps.run (State.step (body id)) State.init as = some s ∧
      s.AtGuard 2 (.tcpClient ()) ∧ s.owner (.tcpClient ()) = some 0 ∧
      s.AtGuard 0 (.eventLoop ()) ∧ s.owner (.eventLoop ()) = some 1 ∧ Live id s :=
  have h : Steps.run (State.step (body id)) State.init
      ([(1, .right), (1, .fn (.eventLoop () .queueSize)), (1, .next), (1, .next),
        (0, .right), (0, .fn (.tcpClient () .disconnect)), (0, .next), (0, .next), (0, .right),
        (0, .next), (0, .next), (0, .right), (0, .next), (0, .next),
        (2, .right), (2, .fn (.tcpClient () .connection)), (2, .next)] :
        List (Fin 3 × Pick (Fn Unit Unit Unit))) = some _ := rfl
  ⟨_, _, h, ⟨_, _, rfl⟩, rfl, ⟨_, _, rfl⟩, rfl, mutexes_live id h⟩

end SimpleNet.LockOrder
