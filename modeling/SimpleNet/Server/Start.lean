import SimpleNet.Lib.Run
import Mathlib.Logic.Function.Basic

/-!
# Starting a server

`TcpServer::start`, which any thread may call at any time and any number of times: an exchange of
`started_` lets one of the calls through, which starts the threads of the pool one by one and hands
`Acceptor::listen` to the accept loop.  Each of these is a step.  A `startLoop` returns the loop of
its thread, or NULL when that loop has ended already, or it never returns: then its call of `start()`
takes no more steps.

`start_once`: in every interleaving the pool is started once, its assertion `!started_` and that of
the server hold, and the acceptor listens once, after every `startLoop` has returned.  The pool finds
itself on the right thread when the first call of `start()` is on that of the accept loop.
-/

namespace SimpleNet

open Function (update)

/-- Where a thread is in `TcpServer::start`. -/
inductive Starts
  | out
  /-- `getAndSet(1)` returned 0 -/
  | pool
  /-- in `EventLoopThreadPool::start`, after `i` threads -/
  | threads (i : Nat)
  /-- the pool is started -/
  | listen
  deriving DecidableEq

/-- The server, its pool and its acceptor before the first connection. -/
structure ServerStart (θ : Type) where
  /-- `TcpServer::started_` -/
  started : BitVec 32
  /-- `EventLoopThreadPool::started_` -/
  poolStarted : Bool
  numThreads : Nat
  /-- `loops_`: loops by the number in the thread's name, and NULL -/
  loops : List (Option Nat)
  listenning : Bool
  /-- the functors `Acceptor::listen` that wait in the accept loop -/
  queued : Nat
  /-- how often `Acceptor::listen` has run -/
  listens : Nat
  /-- `assert(!started_)` or `assert(!acceptor_->listenning())` failed -/
  aborted : Bool
  /-- `baseLoop_->assertInLoopThread()` failed; this only prints a line -/
  notInLoopThread : Bool
  stage : θ → Starts

namespace ServerStart

variable {θ : Type} [DecidableEq θ]

/-- The server after its constructor and `setThreadNum`. -/
def init (numThreads : Nat) : ServerStart θ where
  started := 0
  poolStarted := false
  numThreads := numThreads
  loops := []
  listenning := false
  queued := 0
  listens := 0
  aborted := false
  notInLoopThread := false
  stage _ := .out

/-- `AtomicIntegerT::getAndSet` of `started_`. -/
def getAndSet (s : ServerStart θ) (newValue : BitVec 32) : BitVec 32 × ServerStart θ :=
  (s.started, { s with started := newValue })

def setStage (s : ServerStart θ) (n : θ) (x : Starts) : ServerStart θ :=
  { s with stage := update s.stage n x }

/-- `EventLoop::assertInLoopThread` of the accept loop, on the thread `n`. -/
def assertInLoopThread (s : ServerStart θ) (acceptor n : θ) : ServerStart θ :=
  { s with notInLoopThread := s.notInLoopThread || n ≠ acceptor }

/-- `Acceptor::listen`. -/
def listen (s : ServerStart θ) : ServerStart θ :=
  { s with listenning := true, listens := s.listens + 1 }

/-- The next access of a thread in `start()`; `acceptor` is the thread of the accept loop, and
`ended` says that a new loop has ended before `startLoop` reads it. -/
def go (s : ServerStart θ) (acceptor n : θ) (ended : Bool) : ServerStart θ :=
  match s.stage n with
  | .out =>
    let (old, s) := s.getAndSet 1
    if old = 0 then s.setStage n .pool else s
  | .pool =>
    if s.poolStarted then { s with aborted := true }
    else { (s.assertInLoopThread acceptor n).setStage n (.threads 0) with poolStarted := true }
  | .threads i =>
    if i < s.numThreads then
      { s.setStage n (.threads (i + 1)) with loops := s.loops ++ [if ended then none else some i] }
    else s.setStage n .listen
  | .listen =>
    if s.listenning then { s with aborted := true }
    else if n = acceptor then (s.setStage n .out).listen
    else { s.setStage n .out with queued := s.queued + 1 }

inductive Act (θ : Type)
  /-- a thread calls `start()`, or goes on in it -/
  | go (n : θ) (ended : Bool)
  /-- the accept loop runs a functor -/
  | run

def step (acceptor : θ) (s : ServerStart θ) (a : Act θ) : Option (ServerStart θ) :=
  if s.aborted then none else
  match a with
  | .go n ended => some (s.go acceptor n ended)
  | .run => if 0 < s.queued then some { s.listen with queued := s.queued - 1 } else none

/-- The loops are in the order of their threads. -/
def InOrder (loops : List (Option Nat)) : Prop := ∀ i k : Nat, loops[i]? = some (some k) → k = i

theorem inOrder_concat {l : List (Option Nat)} (h : InOrder l) {x : Option Nat}
    (hx : ∀ k ∈ x, k = l.length) : InOrder (l ++ [x]) := by
  intro i k hk
  rcases Nat.lt_trichotomy i l.length with hlt | rfl | hgt
  · rw [List.getElem?_append_left hlt] at hk
    exact h i k hk
  · rw [List.getElem?_concat_length] at hk
    exact hx k (Option.some.inj hk)
  · have hlen : (l ++ [x]).length ≤ i := by
      rw [List.length_append]
      exact hgt
    rw [List.getElem?_eq_none hlen] at hk
    cases hk

/-- The pool with the first loops, started by the thread `n`. -/
def begun (acceptor n : θ) (m : Nat) (loops : List (Option Nat)) : ServerStart θ :=
  { (init m : ServerStart θ) with
    started := 1
    poolStarted := true
    loops := loops
    notInLoopThread := n ≠ acceptor }

/-- How far the one call of `start()` is that was let through: that on the thread `n`. -/
inductive Progress (acceptor n : θ) (m : Nat) : ServerStart θ → Prop
  | pool : Progress acceptor n m ({ (init m : ServerStart θ) with started := 1 }.setStage n .pool)
  | threads (l : List (Option Nat)) (hl : l.length ≤ m) (ho : InOrder l) :
    Progress acceptor n m ((begun acceptor n m l).setStage n (.threads l.length))
  | listen (l : List (Option Nat)) (hl : l.length = m) (ho : InOrder l) :
    Progress acceptor n m ((begun acceptor n m l).setStage n .listen)
  | queued (l : List (Option Nat)) (hl : l.length = m) (ho : InOrder l) :
    Progress acceptor n m { begun acceptor n m l with queued := 1 }
  | listens (l : List (Option Nat)) (hl : l.length = m) (ho : InOrder l) :
    Progress acceptor n m (begun acceptor n m l).listen

section

variable {acceptor n : θ} {m : Nat} {s t : ServerStart θ} {a : Act θ} {l : List (Option Nat)}

/-- A call of `start()` while the server is starting, or after it. -/
theorem go_out {k : θ} {ended : Bool} (hk : s.stage k = .out) (hs : s.started = 1) :
    s.go acceptor k ended = s := by
  unfold go
  rw [hk]
  show (if s.started = 0 then _ else _) = s
  rw [hs, if_neg (by decide)]
  exact congrArg (fun x => { s with started := x }) hs.symm

theorem setStage_setStage (s : ServerStart θ) (n : θ) (x y : Starts) :
    (s.setStage n x).setStage n y = s.setStage n y :=
  congrArg (fun g => { s with stage := g }) (Function.update_idem x y s.stage)

theorem setStage_self (s : ServerStart θ) (n : θ) (x : Starts) : (s.setStage n x).stage n = x :=
  Function.update_self _ _ _

/-- Back out of `start()`. -/
theorem setStage_out (hn : s.stage n = .out) : s.setStage n .out = s := by
  rw [setStage, ← hn, Function.update_eq_self]

/-- The thread that was let through goes on, or another one calls `start()` in vain. -/
theorem go_setStage (acceptor n k : θ) (ended : Bool) (x : Starts) (hn : ∀ j, s.stage j = .out)
    (hs : s.started = 1) : (s.setStage n x).go acceptor k ended = s.setStage n x ∨
      k = n ∧ (s.setStage n x).stage k = x := by
  by_cases hk : k = n
  · subst hk
    exact Or.inr ⟨rfl, setStage_self s k x⟩
  · have hout : (s.setStage n x).stage k = .out := (Function.update_of_ne hk _ _).trans (hn k)
    exact Or.inl (go_out hout hs)

theorem progress_go (h : Progress acceptor n m s) (k : θ) (ended : Bool) :
    Progress acceptor n m (s.go acceptor k ended) := by
  cases h with
  | pool =>
    rcases go_setStage (s := { (init m : ServerStart θ) with started := 1 }) acceptor n k ended
      .pool (fun _ => rfl) rfl with he | ⟨rfl, he⟩
    · rw [he]
      exact .pool
    · rw [go, he]
      show Progress acceptor k m (((begun acceptor k m []).setStage k .pool).setStage k (.threads 0))
      rw [setStage_setStage]
      exact .threads [] (Nat.zero_le m) (by simp [InOrder])
  | threads l hl ho =>
    rcases go_setStage (s := begun acceptor n m l) acceptor n k ended (.threads l.length)
      (fun _ => rfl) rfl with he | ⟨rfl, he⟩
    · rw [he]
      exact .threads l hl ho
    · rw [go, he]
      show Progress acceptor k m (if l.length < m then
        { ((begun acceptor k m l).setStage k (.threads l.length)).setStage k
            (.threads (l.length + 1)) with
          loops := l ++ [if ended then none else some l.length] }
        else ((begun acceptor k m l).setStage k (.threads l.length)).setStage k .listen)
      rw [setStage_setStage, setStage_setStage]
      split
      · next hlt =>
        have hlen (x : Option Nat) : (l ++ [x]).length = l.length + 1 := List.length_append
        have hnext : Progress acceptor k m _ := .threads (l ++ [if ended then none else some l.length])
          (hlen _ ▸ hlt) (inOrder_concat ho (by cases ended <;> simp))
        rw [hlen] at hnext
        exact hnext
      · next hge => exact .listen l (Nat.le_antisymm hl (Nat.le_of_not_lt hge)) ho
  | listen l hl ho =>
    rcases go_setStage (s := begun acceptor n m l) acceptor n k ended .listen (fun _ => rfl) rfl with
      he | ⟨rfl, he⟩
    · rw [he]
      exact .listen l hl ho
    · have hout : ((begun acceptor k m l).setStage k .listen).setStage k .out =
          begun acceptor k m l := by
        rw [setStage_setStage, setStage_out rfl]
      rw [go, he]
      show Progress acceptor k m (if k = acceptor then (ServerStart.setStage _ k .out).listen
        else { ServerStart.setStage _ k .out with queued := 1 })
      rw [hout]
      split
      · exact .listens l hl ho
      · exact .queued l hl ho
  | queued l hl ho =>
    rw [go_out rfl rfl]
    exact .queued l hl ho
  | listens l hl ho =>
    rw [go_out rfl rfl]
    exact .listens l hl ho

theorem progress_step (h : Progress acceptor n m s) (hst : step acceptor s a = some t) :
    Progress acceptor n m t := by
  obtain ⟨-, hst⟩ := Option.ite_none_left_eq_some.mp hst
  cases a with
  | go k ended =>
    obtain rfl := Option.some.inj hst
    exact progress_go h k ended
  | run =>
    obtain ⟨hq, hst⟩ := Option.ite_none_right_eq_some.mp hst
    obtain rfl := Option.some.inj hst
    cases h with
    | queued l hl ho => exact .listens l hl ho
    | _ => exact absurd hq (Nat.lt_irrefl 0)

/-- What `start()` comes to, when the thread `n` has called it first. -/
structure Once (acceptor n : θ) (m : Nat) (t : ServerStart θ) : Prop where
  asserts : t.aborted = false
  /-- the pool is started on the thread of the accept loop, or a line is printed -/
  thread : t.notInLoopThread = true ↔ t.poolStarted = true ∧ n ≠ acceptor
  /-- an entry for each thread, the loop of the thread or NULL -/
  loops : t.loops.length ≤ m ∧ InOrder t.loops
  once : t.queued + t.listens ≤ 1
  /-- `Acceptor::listen` comes after the last of them -/
  after : 0 < t.queued + t.listens → t.poolStarted = true ∧ t.loops.length = m
  /-- when no call is in progress it has come -/
  handed : (∀ k, t.stage k = .out) → t.queued + t.listens = 1

theorem once_of_progress (h : Progress acceptor n m t) : Once acceptor n m t := by
  have hin : ∀ {s : ServerStart θ} {x}, x ≠ .out → ¬ ∀ k, (s.setStage n x).stage k = .out :=
    fun hx hout => hx ((setStage_self _ _ _).symm.trans (hout _))
  have hthread : ∀ l, (begun acceptor n m l).notInLoopThread = true ↔ true = true ∧ n ≠ acceptor :=
    fun l => by simp [begun]
  cases h with
  | pool =>
    exact ⟨rfl, by simp [setStage, init], ⟨Nat.zero_le m, by simp [setStage, init, InOrder]⟩,
      Nat.zero_le 1, fun hpos => absurd hpos (Nat.lt_irrefl 0), fun hout => absurd hout (hin (by simp))⟩
  | threads l hl ho =>
    exact ⟨rfl, hthread l, ⟨hl, ho⟩, Nat.zero_le 1, fun hpos => absurd hpos (Nat.lt_irrefl 0),
      fun hout => absurd hout (hin (by simp))⟩
  | listen l hl ho =>
    exact ⟨rfl, hthread l, ⟨Nat.le_of_eq hl, ho⟩, Nat.zero_le 1,
      fun hpos => absurd hpos (Nat.lt_irrefl 0), fun hout => absurd hout (hin (by simp))⟩
  | queued l hl ho =>
    exact ⟨rfl, hthread l, ⟨Nat.le_of_eq hl, ho⟩, Nat.le_refl 1, fun _ => ⟨rfl, hl⟩, fun _ => rfl⟩
  | listens l hl ho =>
    exact ⟨rfl, hthread l, ⟨Nat.le_of_eq hl, ho⟩, Nat.le_refl 1, fun _ => ⟨rfl, hl⟩, fun _ => rfl⟩

/-- **`start()` takes effect once**, however many threads call it: the pool is started by the first
of them, and the acceptor listens once, after the pool's threads. -/
theorem start_once {as : List (Act θ)} (has : as ≠ [])
    (hrun : Steps.run (step acceptor) (init m) as = some t) :
    ∃ n ended bs, as = .go n ended :: bs ∧ Once acceptor n m t := by
  cases as with
  | nil => exact absurd rfl has
  | cons a bs =>
    obtain ⟨u, hu, hrun⟩ := Steps.run_cons_eq_some.mp hrun
    cases a with
    | run => cases hu
    | go n ended =>
      obtain rfl := Option.some.inj hu
      exact ⟨n, ended, bs, rfl,
        once_of_progress (Steps.run_invariant (fun _ _ _ => progress_step) .pool hrun)⟩

/-- Two threads call `start()` at once, the first of them on that of the accept loop; of the two
loops one has ended at once. -/
def startTwo : List (Act Bool) :=
  [.go true false, .go false false, .go true false, .go true true, .go false false, .go true false,
    .go true false, .go true false]

theorem start_once_two : ∃ t, Steps.run (step true) (init 2) startTwo = some t ∧
    t.loops = [none, some 1] ∧ t.listens = 1 ∧ Once true true 2 t := by
  have hrun : Steps.run (step true) (init 2) startTwo = some _ := rfl
  obtain ⟨n, ended, bs, has, h⟩ := start_once (by decide) hrun
  obtain ⟨rfl, -⟩ := Act.go.inj (List.cons.inj has).1
  exact ⟨_, hrun, rfl, rfl, h⟩

end

end ServerStart

end SimpleNet
