import SimpleNet.Connection.Shutdown

/-!
# How long a connection lives

A connection is destroyed with its last `TcpConnectionPtr`.  One is in the map of the server (or
is the `connection_` of the client), users and other loops have copies, and some functors of the
loop capture one; those of a batch are destroyed together, when the batch is done.  The functors
of `send`, `shutdown`, `startRead` and `stopRead` capture nothing: they are bound to `this`.

When the connection is closed its `connectDestroyed` captures a pointer.  A functor that another
thread queues later may be in the next batch, and when this thread drops its pointer the
connection is destroyed in between (`runs_dead`).

`raw_runs_alive`: where at each drop a pointer is left that is destroyed no sooner than the batch
of each such functor, they all run on a live connection.
-/

namespace SimpleNet

open Function (update)

/-- The functor is bound to `this`. -/
def Functor.raw : Functor → Bool
  | .sendInLoop _ | .shutdownInLoop | .startReadInLoop | .stopReadInLoop => true
  | .connectEstablished | .connectDestroyed | .forceCloseInLoop | .addTimerInLoop | .writeComplete
  | .highWaterMark _ | .handleRead | .handleWrite | .handleClose | .handleError | .other => false

/-- The functor is bound to a `TcpConnectionPtr`. -/
def Functor.captures : Functor → Bool
  | .connectEstablished | .connectDestroyed | .forceCloseInLoop | .writeComplete
  | .highWaterMark _ => true
  | .sendInLoop _ | .shutdownInLoop | .startReadInLoop | .stopReadInLoop | .addTimerInLoop
  | .handleRead | .handleWrite | .handleClose | .handleError | .other => false

/-! ### What the loop's thread queues -/

namespace Conn

variable {ι β : Type} {s t u : Conn ι β}

/-- Functors may have been queued, none of them bound to `this`. -/
def Queues (s t : Conn ι β) : Prop :=
  ∃ fs, t.pendingFunctors = s.pendingFunctors ++ fs ∧ ∀ f ∈ fs, f.raw = false

theorem queues_of_eq (h : t.pendingFunctors = s.pendingFunctors) : Queues s t :=
  ⟨[], by rw [h, List.append_nil], by simp⟩

theorem Queues.trans (h : Queues s t) (g : Queues t u) : Queues s u := by
  obtain ⟨fs, hs, hf⟩ := h
  obtain ⟨fs', ht, hf'⟩ := g
  refine ⟨fs ++ fs', by rw [ht, hs, List.append_assoc], ?_⟩
  intro f hm
  rcases List.mem_append.mp hm with hm | hm
  · exact hf f hm
  · exact hf' f hm

theorem queues_queueInLoop (s : Conn ι β) {f : Functor} (hf : f.raw = false) :
    Queues s (s.queueInLoop f) :=
  ⟨[f], rfl, by simpa using hf⟩

theorem queues_shutdownInLoop (s : Conn ι β) : Queues s s.shutdownInLoop := by
  unfold shutdownInLoop
  split
  · exact queues_of_eq rfl
  · exact queues_of_eq rfl

/-- `if(writeCompleteCallback_) queueInLoop(..)`, and the like. -/
theorem queues_ite (s : Conn ι β) (p : Prop) [Decidable p] {f : Functor} (hf : f.raw = false) :
    Queues s (if p then s.queueInLoop f else s) := by
  split
  · exact queues_queueInLoop s hf
  · exact queues_of_eq rfl

/-- The end of `handleWrite`, when the buffer is drained. -/
theorem queues_drained (s : Conn ι β) :
    let x := if s.writeCompleteCallback then s.queueInLoop .writeComplete else s
    Queues s (if x.state = .kDisconnecting then x.shutdownInLoop else x) := by
  intro x
  have hx : Queues s x := queues_ite s _ rfl
  split
  · exact hx.trans (queues_shutdownInLoop x)
  · exact hx

variable [DecidableEq ι]

theorem queues_startReadInLoop (hA : s.toReactor.Agree) (h : s.startReadInLoop = .ok t) :
    Queues s t := by
  unfold startReadInLoop at h
  split at h
  · rw [onChannel_eq hA (by simp)] at h
    exact queues_of_eq (Except.ok.inj h ▸ rfl)
  · exact queues_of_eq (Except.ok.inj h ▸ rfl)

theorem queues_stopReadInLoop (hA : s.toReactor.Agree) (h : s.stopReadInLoop = .ok t) :
    Queues s t := by
  unfold stopReadInLoop at h
  split at h
  · rw [onChannel_eq hA (by simp)] at h
    exact queues_of_eq (Except.ok.inj h ▸ rfl)
  · exact queues_of_eq (Except.ok.inj h ▸ rfl)

variable [Fifo β UInt8]

theorem queues_bufferRest (hA : s.toReactor.Agree) {rest : List UInt8}
    (h : s.bufferRest rest = .ok t) : Queues s t := by
  unfold bufferRest at h
  simp only at h
  have hq := queues_ite s (Fifo.readable s.outputBuffer + rest.length ≥ s.highWaterMark ∧
    s.highWaterMarkCallback = true)
    (f := .highWaterMark (Fifo.readable s.outputBuffer + rest.length)) rfl
  generalize hu : (if Fifo.readable s.outputBuffer + rest.length ≥ s.highWaterMark ∧
    s.highWaterMarkCallback = true then
      s.queueInLoop (.highWaterMark (Fifo.readable s.outputBuffer + rest.length)) else s) = u at h hq
  have hr : u.toReactor = s.toReactor := by
    rw [← hu]
    split <;> rfl
  split at h
  · exact hq.trans (queues_of_eq (Except.ok.inj h ▸ rfl))
  · rw [onChannel_eq (by exact hr ▸ hA) (by simp)] at h
    exact hq.trans (queues_of_eq (Except.ok.inj h ▸ rfl))

theorem queues_sendInLoop (hA : s.toReactor.Agree) {m : Message} {w : WriteResult}
    (h : s.sendInLoop m w = .ok t) : Queues s t := by
  unfold sendInLoop at h
  split at h
  · exact queues_of_eq (Except.ok.inj h ▸ rfl)
  split at h
  · cases w with
    | wrote n =>
      simp only at h
      split at h
      · rw [← Except.ok.inj h]
        exact (queues_of_eq rfl).trans (queues_ite ((s.emit _).emit _) _ rfl)
      · exact (queues_of_eq rfl).trans (queues_bufferRest (s := (s.emit _).emit _) hA h)
    | error errno =>
      simp only at h
      split at h
      · exact (queues_of_eq rfl).trans (queues_bufferRest (s := s.emit _) hA h)
      · exact queues_of_eq (Except.ok.inj h ▸ rfl)
  · simp only at h
    split at h
    · exact (queues_of_eq rfl).trans (queues_bufferRest (s := s.emit _) hA h)
    · exact queues_of_eq (Except.ok.inj h ▸ rfl)

theorem queues_handleWrite (hA : s.toReactor.Agree) {w : WriteResult}
    (h : s.handleWrite w = .ok t) : Queues s t := by
  unfold handleWrite at h
  split at h
  · cases w with
    | error errno => exact queues_of_eq (Except.ok.inj h ▸ rfl)
    | wrote k =>
      simp only at h
      split at h
      · split at h
        · rw [onChannel_eq (by exact hA) (by simp)] at h
          rw [← Except.ok.inj h]
          exact (queues_of_eq rfl).trans (queues_drained { s with
            trace := s.trace ++ [.write ((Fifo.peek s.outputBuffer).take
              (min k (Fifo.readable s.outputBuffer)))]
            outputBuffer := Fifo.retrieve s.outputBuffer (min k (Fifo.readable s.outputBuffer))
            toReactor := s.toReactor.setMask s.channel (Reactor.Op.mask .disableWriting s.ch.events) })
        · exact queues_of_eq (Except.ok.inj h ▸ rfl)
      · exact queues_of_eq (Except.ok.inj h ▸ rfl)
  · exact queues_of_eq (Except.ok.inj h ▸ rfl)

omit [Fifo β UInt8] in
theorem queues_handleClose (hA : s.toReactor.Agree) (h : s.handleClose = .ok t) : Queues s t := by
  by_cases hs : s.state.Live
  · rw [handleClose_eq hA hs] at h
    exact queues_of_eq (Except.ok.inj h ▸ rfl)
  · unfold handleClose at h
    rw [Assertion.check_of_not (p := _ ∨ _) hs] at h
    cases h

/-- A functor queues none that is bound to `this`. -/
theorem queues_runFunctor (hA : s.toReactor.Agree) {w : WriteResult} {r : ReadResult} {f : Functor}
    (h : s.runFunctor w r f = .ok t) : Queues s t := by
  cases f with
  | connectEstablished =>
    by_cases hs : s.state = .kConnecting
    · exact queues_of_eq (Except.ok.inj ((connectEstablished_eq hA hs).symm.trans h) ▸ rfl)
    · simp [runFunctor, connectEstablished, hs, bind, Except.bind] at h
  | connectDestroyed =>
    by_cases hs : s.state = .kConnected
    · exact queues_of_eq (Except.ok.inj ((connectDestroyed_eq hA hs).symm.trans h) ▸ rfl)
    · have h : s.connectDestroyed = .ok t := h
      rw [connectDestroyed, if_neg hs] at h
      exact queues_of_eq (Except.ok.inj h ▸ rfl)
  | sendInLoop m => exact queues_sendInLoop hA h
  | shutdownInLoop => exact Except.ok.inj h ▸ queues_shutdownInLoop s
  | forceCloseInLoop =>
    have h : s.forceCloseInLoop = .ok t := h
    unfold forceCloseInLoop at h
    split at h
    · exact queues_handleClose hA h
    · exact queues_of_eq (Except.ok.inj h ▸ rfl)
  | startReadInLoop => exact queues_startReadInLoop hA h
  | stopReadInLoop => exact queues_stopReadInLoop hA h
  | handleRead =>
    have h : s.handleRead r = .ok t := h
    unfold handleRead at h
    split at h
    · split at h
      · exact queues_of_eq (Except.ok.inj h ▸ rfl)
      · exact queues_handleClose hA h
    · exact queues_of_eq (Except.ok.inj h ▸ rfl)
  | handleWrite => exact queues_handleWrite hA h
  | handleClose => exact queues_handleClose hA h
  | addTimerInLoop | writeComplete | highWaterMark len | handleError | other =>
    exact queues_of_eq (Except.ok.inj h ▸ rfl)

/-- Nor does a call on the loop's thread, where `runInLoop` runs the functor at once. -/
theorem queues_callNow (hA : s.toReactor.Agree) {w : WriteResult} {c : Call}
    (h : s.callNow true w c = .ok t) : Queues s t := by
  have hcall : Queues s (s.emit (.call c)) := queues_of_eq rfl
  cases hd : c.direct s.state with
  | some f =>
    rw [callNow_direct w hd] at h
    exact hcall.trans (queues_runFunctor hA h)
  | none =>
    have hnone : c.body s.state = [] → Queues s t := by
      intro hb
      rw [callNow, hb] at h
      exact Except.ok.inj h ▸ hcall
    cases c with
    | send m =>
      refine hnone (if_neg ?_)
      intro hs
      rw [Call.direct, if_pos hs] at hd
      cases hd
    | startRead | stopRead => cases hd
    | shutdown => exact Except.ok.inj h ▸ (queues_of_eq rfl).trans (queues_shutdownInLoop _)
    | forceClose =>
      by_cases hs : s.state.Live
      · have hbody : Call.body s.state .forceClose =
          [.setState .forceClose .kDisconnecting, .queueInLoop .forceCloseInLoop] := if_pos hs
        rw [callNow, hbody] at h
        exact Except.ok.inj h ▸ (queues_of_eq rfl).trans (queues_queueInLoop _ rfl)
      · exact hnone (if_neg hs)
    | forceCloseWithDelay =>
      by_cases hs : s.state.Live
      · have hbody : Call.body s.state .forceCloseWithDelay =
          [.setState .forceCloseWithDelay .kDisconnecting, .runInLoop .addTimerInLoop] := if_pos hs
        rw [callNow, hbody] at h
        exact queues_of_eq (Except.ok.inj h ▸ rfl)
      · exact hnone (if_neg hs)

omit [DecidableEq ι] [Fifo β UInt8] in
/-- What is left of the batch when a functor runs. -/
theorem Runs.mem_batch {a : Act} {w : WriteResult} {r : ReadResult} {f g : Functor}
    (h : Runs s a w r f u) (hp : Position s.channel s.position) (hg : g ∈ u.batch) : g ∈ s.batch := by
  cases h with
  | functors hs =>
    rw [batch, position_of_loop rfl rfl] at hg
    rw [batch, position_of_loop hs rfl]
    exact List.mem_cons_of_mem _ hg
  | onClose hs | onError hs | onRead hs | onWrite hs => rwa [batch_of_pop hp hs (by simp) rfl] at hg
  | enter | call => exact hg

/-- A thread is in a call that it was in before, or begins one. -/
theorem Stepped.mem_threads {a : Act} (h : Stepped s a t) {k : Nat}
    (hk : t.threads k ≠ []) : s.threads k ≠ [] ∨ ∃ c, a = .begin k c := by
  have htail : ∀ {n : Nat} {m : Micro} {ms : List Micro}, s.threads n = m :: ms →
      update s.threads n ms k ≠ [] → s.threads k ≠ [] := by
    intro n m ms hn hne
    rw [Function.update_apply] at hne
    split at hne
    · next he => simp [he, hn]
    · exact hne
  cases h with
  | ran hu hr hran =>
    left
    rw [hran.threads] at hk
    cases hu <;> exact hk
  | called hu hr ht =>
    left
    rw [ht.threads] at hk
    cases hu <;> exact hk
  | @begin n c hs =>
    by_cases hn : k = n
    · exact Or.inr ⟨c, by rw [hn]⟩
    · left
      have hk : update s.threads n (c.body s.state) k ≠ [] := hk
      rwa [Function.update_of_ne hn] at hk
  | write hs => exact Or.inl (htail hs hk)
  | defer hs => exact Or.inl (htail hs hk)
  | poll | refused | removed | stuck | closeCallback | handle | skip | handled | eventsDone
  | doPendingFunctors | ret | queue => exact Or.inl hk

theorem mem_pending_of_queue {f : Functor} (h : step s (.queue f) = some t) :
    f ∈ t.pendingFunctors := by
  unfold step at h
  split at h
  · cases h
  · obtain rfl := Option.some.inj h
    simp

end Conn

/-! ### The pointers to a connection -/

/-- A connection and its `TcpConnectionPtr`s; those in functors are in the functors. -/
structure SharedConn (ι β : Type) where
  conn : Conn ι β
  /-- in the server's map, or `connection_` of the client -/
  owner : Bool
  /-- of users and of other loops: the threads that have one, as often as they do -/
  copies : List Nat
  /-- `functors` in `doPendingFunctors`, also those that have run -/
  functors : List Functor

namespace SharedConn

variable {ι β : Type}

/-- `newConnection`. -/
def init [Fifo β UInt8] (r : Reactor ι) (c : ι) (mark : Nat) (hw wc : Bool) : SharedConn ι β where
  conn := .init r c mark hw wc
  owner := true
  copies := []
  functors := []

/-- A pointer outlives the batch that is being run. -/
def Lasting (s : SharedConn ι β) : Prop :=
  s.owner = true ∨ s.copies ≠ [] ∨ ∃ f ∈ s.conn.pendingFunctors, f.captures = true

/-- The connection has not been destroyed. -/
def Alive (s : SharedConn ι β) : Prop := s.Lasting ∨ ∃ f ∈ s.functors, f.captures = true

instance (s : SharedConn ι β) : Decidable s.Lasting := inferInstanceAs (Decidable (_ ∨ _ ∨ _))

instance (s : SharedConn ι β) : Decidable s.Alive := inferInstanceAs (Decidable (_ ∨ _))

inductive Act
  /-- a step of the connection and its loop -/
  | conn (a : Conn.Act)
  /-- the thread gets a pointer -/
  | copy (k : Nat)
  /-- the thread drops a pointer, when no call of its own needs it -/
  | drop (k : Nat)
  /-- `removeConnection` of the client or `removeConnectionInLoop` of the server -/
  | removeConnection
  deriving DecidableEq, Repr

/-- Who calls a function of the connection has a pointer; the weak pointer of
`forceCloseWithDelay` can be locked. -/
def Allowed (s : SharedConn ι β) : Conn.Act → Prop
  | .begin k _ => k ∈ s.copies
  | .call _ _ | .fire _ => s.Alive
  | .enter f _ _ => f = .connectEstablished ∧ s.Alive
  | .queue f => f = .other ∨ f = .connectEstablished ∧ s.Alive
  | .offCall _ => False
  | .poll _ | .go _ _ | .ret | .micro _ => True

instance (s : SharedConn ι β) : (a : Conn.Act) → Decidable (s.Allowed a)
  | .begin _ _ => inferInstanceAs (Decidable (_ ∈ _))
  | .call _ _ | .fire _ => inferInstanceAs (Decidable s.Alive)
  | .enter _ _ _ => inferInstanceAs (Decidable (_ ∧ s.Alive))
  | .queue _ => inferInstanceAs (Decidable (_ ∨ _ ∧ s.Alive))
  | .offCall _ => .isFalse id
  | .poll _ | .go _ _ | .ret | .micro _ => .isTrue trivial

/-- `functors` after a step of the connection. -/
def functorsAfter (s : SharedConn ι β) : Conn.Act → List Functor
  | .go _ _ =>
    match s.conn.stack with
    | .doPendingFunctors :: _ => s.conn.pendingFunctors
    | .functors [] :: _ => []
    | _ => s.functors
  | _ => s.functors

section

variable [DecidableEq ι] [Fifo β UInt8]

def step (s : SharedConn ι β) : Act → Option (SharedConn ι β)
  | .conn a =>
    if s.Allowed a then
      (s.conn.step a).map fun c => { s with conn := c, functors := s.functorsAfter a }
    else none
  | .copy k => if s.Alive then some { s with copies := k :: s.copies } else none
  | .drop k =>
    if k ∈ s.copies ∧ (s.conn.threads k = [] ∨ k ∈ s.copies.erase k) then
      some { s with copies := s.copies.erase k }
    else none
  | .removeConnection =>
    if s.owner then
      (s.conn.step (.queue .connectDestroyed)).map fun c => { s with conn := c, owner := false }
    else none

end

/-- When the loop is about to run a functor that is bound to `this`, the connection lives. -/
def RawSafe (s : SharedConn ι β) : Prop :=
  ∀ f fs rest, s.conn.stack = .functors (f :: fs) :: rest → f.raw = true → s.Alive

/-- For each waiting functor that is bound to `this`, a pointer will not be destroyed before the
end of its batch. -/
structure Covered (s : SharedConn ι β) : Prop where
  pending : ∀ f ∈ s.conn.pendingFunctors, f.raw = true → s.Lasting
  batch : ∀ f ∈ s.conn.batch, f.raw = true → s.Alive

instance (s : SharedConn ι β) : Decidable s.Covered :=
  decidable_of_iff ((∀ f ∈ s.conn.pendingFunctors, f.raw = true → s.Lasting) ∧
    ∀ f ∈ s.conn.batch, f.raw = true → s.Alive) ⟨fun h => ⟨h.1, h.2⟩, fun h => ⟨h.1, h.2⟩⟩

/-- Where a thread drops a pointer, another one covers what waits. -/
def DropOk (s : SharedConn ι β) : Act → Prop
  | .drop k => Covered { s with copies := s.copies.erase k }
  | _ => True

instance (s : SharedConn ι β) : (a : Act) → Decidable (DropOk s a)
  | .drop k => inferInstanceAs (Decidable (Covered { s with copies := s.copies.erase k }))
  | .conn _ | .copy _ | .removeConnection => .isTrue trivial

/-- What waits is covered, and a thread has a pointer while it is in a call. -/
structure CoverInv [DecidableEq ι] (s : SharedConn ι β) : Prop where
  base : s.conn.Base
  covered : s.Covered
  callers : ∀ k, s.conn.threads k ≠ [] → k ∈ s.copies

variable [DecidableEq ι] [Fifo β UInt8] {s t : SharedConn ι β}

omit [DecidableEq ι] [Fifo β UInt8] in
theorem Lasting.of_append (h : s.Lasting) {c : Conn ι β} {fs l : List Functor}
    (hc : c.pendingFunctors = s.conn.pendingFunctors ++ fs) :
    Lasting { s with conn := c, functors := l } := by
  rcases h with h | h | ⟨f, hf, hcap⟩
  · exact Or.inl h
  · exact Or.inr (Or.inl h)
  · exact Or.inr (Or.inr ⟨f, hc ▸ List.mem_append_left _ hf, hcap⟩)

omit [DecidableEq ι] [Fifo β UInt8] in
/-- A step that queues nothing bound to `this`. -/
theorem Covered.of_queues (h : s.Covered) {c : Conn ι β} (hq : s.conn.Queues c)
    (hb : ∀ f ∈ c.batch, f ∈ s.conn.batch) : Covered { s with conn := c } := by
  obtain ⟨fs, hfs, hraw⟩ := hq
  refine ⟨?_, ?_⟩
  · intro f hf hr
    rcases List.mem_append.mp (hfs ▸ hf) with hf | hf
    · exact (h.pending f hf hr).of_append hfs
    · rw [hraw f hf] at hr
      cases hr
  · intro f hf hr
    exact (h.batch f (hb f hf) hr).imp_left fun hl => hl.of_append hfs

omit [DecidableEq ι] [Fifo β UInt8] in
theorem functorsAfter_of_runs {a : Conn.Act} {w : WriteResult} {r : ReadResult} {f : Functor}
    {u : Conn ι β} (hu : Conn.Runs s.conn a w r f u) : s.functorsAfter a = s.functors := by
  cases hu with
  | functors hs | onClose hs | onError hs | onRead hs | onWrite hs => simp [functorsAfter, hs]
  | enter | call => rfl

omit [DecidableEq ι] [Fifo β UInt8] in
theorem functorsAfter_of_pop {f : Frame ι} {rest : List (Frame ι)} (hs : s.conn.stack = f :: rest)
    (hf : f ≠ .doPendingFunctors) (hb : ∀ b, f ≠ .functors b) (w : WriteResult) (r : ReadResult) :
    s.functorsAfter (.go w r) = s.functors := by
  simp only [functorsAfter, hs]
  split
  · next he => exact absurd (List.cons.inj he).1 hf
  · next he => exact absurd (List.cons.inj he).1 (hb _)
  · rfl

omit [Fifo β UInt8] in
/-- A frame that is no batch comes off the stack. -/
theorem covered_pop {w : WriteResult} {r : ReadResult} {c : Conn ι β} {f : Frame ι}
    {rest : List (Frame ι)} (h : CoverInv s) (hs : s.conn.stack = f :: rest)
    (hf : f ≠ .doPendingFunctors) (hb : ∀ b, f ≠ .functors b) (hrest : c.stack = rest)
    (hpend : c.pendingFunctors = s.conn.pendingFunctors) :
    Covered { s with conn := c, functors := s.functorsAfter (.go w r) } := by
  rw [functorsAfter_of_pop hs hf hb]
  apply h.covered.of_queues (Conn.queues_of_eq hpend)
  intro g hg
  rwa [Conn.batch_of_pop h.base.position hs (fun b he => absurd he (hb b)) hrest] at hg

theorem covered_ran {a : Conn.Act} {w : WriteResult} {r : ReadResult} {f : Functor} {u c : Conn ι β}
    (h : CoverInv s) (hu : Conn.Runs s.conn a w r f u) (hr : u.runFunctor w r f = .ok c)
    (hran : Conn.Ran u r f c) : Covered { s with conn := c, functors := s.functorsAfter a } := by
  rw [functorsAfter_of_runs hu]
  have hagree : u.toReactor.Agree := hu.toReactor ▸ h.base.agree
  have hpend : u.pendingFunctors = s.conn.pendingFunctors := by cases hu <;> rfl
  apply h.covered.of_queues ((Conn.queues_of_eq hpend).trans (Conn.queues_runFunctor hagree hr))
  intro g hg
  rw [Conn.batch, hran.position, ← Conn.batch] at hg
  exact hu.mem_batch h.base.position hg

omit [Fifo β UInt8] in
/-- `doPendingFunctors` takes what is pending, with the pointers in it. -/
theorem covered_swap {w : WriteResult} {r : ReadResult} {rest : List (Frame ι)} (h : CoverInv s)
    (hs : s.conn.stack = .doPendingFunctors :: rest) :
    Covered { s with
      conn := { s.conn with
        pendingFunctors := []
        stack := .functors s.conn.pendingFunctors :: rest }
      functors := s.functorsAfter (.go w r) } := by
  have hfun : s.functorsAfter (.go w r) = s.conn.pendingFunctors := by simp [functorsAfter, hs]
  rw [hfun]
  refine ⟨fun g hg => (by cases hg), ?_⟩
  intro g hg hr
  rw [Conn.batch, Conn.position_of_loop rfl rfl] at hg
  rcases h.covered.pending g hg hr with ho | hc | hcap
  · exact Or.inl (Or.inl ho)
  · exact Or.inl (Or.inr (Or.inl hc))
  · exact Or.inr hcap

omit [Fifo β UInt8] in
/-- `functors` is destroyed at the end of its batch; what is pending has a pointer that lasts. -/
theorem covered_done {w : WriteResult} {r : ReadResult} {rest : List (Frame ι)} (h : CoverInv s)
    (hs : s.conn.stack = .functors [] :: rest) :
    Covered { s with conn := { s.conn with stack := rest }, functors := s.functorsAfter (.go w r) } := by
  refine ⟨fun g hg hr => (h.covered.pending g hg hr).of_append (List.append_nil _).symm, ?_⟩
  intro g hg
  rw [Conn.batch_of_pop h.base.position hs (by simp) rfl, Conn.batch, Conn.position_of_loop hs rfl] at hg
  cases hg

theorem covered_stepped {a : Conn.Act} {c : Conn ι β} (h : CoverInv s) (ha : s.Allowed a)
    (hst : Conn.Stepped s.conn a c) :
    Covered { s with conn := c, functors := s.functorsAfter a } := by
  have hp := h.base.position
  cases hst with
  | @ran _ w r f u _ hu hr hran => exact covered_ran h hu hr hran
  | @refused _ w r f u e hu he =>
    rw [functorsAfter_of_runs hu]
    exact h.covered.of_queues (Conn.queues_of_eq rfl) fun _ hg => hg
  | @called _ l w call u _ hu hr ht =>
    have hbatch : c.batch = s.conn.batch := by
      rw [Conn.batch, Conn.batch, Conn.position, Conn.position, ht.spec.2.1, hu.spec.2.1]
    cases hu with
    | call hs hc =>
      exact h.covered.of_queues (Conn.queues_callNow h.base.agree hr) fun _ hg => hbatch ▸ hg
    | fire hs =>
      exact h.covered.of_queues ((Conn.queues_of_eq rfl).trans (Conn.queues_callNow
        (s := { s.conn with timers := s.conn.timers - 1 }) h.base.agree hr)) fun _ hg => hbatch ▸ hg
    | offCall => cases ha
  | poll hs hw hf =>
    refine h.covered.of_queues (Conn.queues_of_eq rfl) ?_
    intro g hg
    rw [Conn.batch, Conn.position] at hg
    generalize Reactor.activeChannels _ = l at hg
    cases l <;> cases hg
  | @stuck w r rest e hs =>
    rw [functorsAfter_of_pop hs (by simp) (by simp)]
    exact h.covered.of_queues (Conn.queues_of_eq rfl) fun _ hg => hg
  | @handle w r d rest hs =>
    rw [functorsAfter_of_pop hs (by simp) (by simp)]
    refine h.covered.of_queues (Conn.queues_of_eq rfl) ?_
    intro g hg
    rwa [Conn.batch_of_handle hp hs rfl] at hg
  | @skip w r f rest hs hf =>
    cases f with
    | functors b =>
      cases b with
      | nil => exact covered_done h hs
      | cons f b => exact hf.elim
    | onClose | onError | onRead | onWrite => exact covered_pop h hs (by simp) (by simp) rfl rfl
    | user | closeCallback | remove | handle d | handled | eventsDone | doPendingFunctors =>
      exact hf.elim
  | removed hs | closeCallback hs | handled hs | eventsDone hs =>
    exact covered_pop h hs (by simp) (by simp) rfl rfl
  | @doPendingFunctors w r rest hs => exact covered_swap h hs
  | ret hs =>
    refine h.covered.of_queues (Conn.queues_of_eq rfl) ?_
    intro g hg
    rwa [Conn.batch_of_pop hp hs (by simp) rfl] at hg
  | @queue f =>
    refine h.covered.of_queues ⟨[f], rfl, ?_⟩ fun _ hg => hg
    rcases ha with rfl | ⟨rfl, -⟩ <;> simp [Functor.raw]
  | begin hs | write hs => exact h.covered.of_queues (Conn.queues_of_eq rfl) fun _ hg => hg
  | @defer k m f ms hs hm =>
    -- the calling thread has a pointer
    have hk : s.copies ≠ [] := List.ne_nil_of_mem (h.callers k (by rw [hs]; simp))
    exact ⟨fun _ _ _ => Or.inr (Or.inl hk), fun _ _ _ => Or.inl (Or.inr (Or.inl hk))⟩

omit [DecidableEq ι] [Fifo β UInt8] in
theorem Covered.of_lasting (h : s.Lasting) : s.Covered := ⟨fun _ _ _ => h, fun _ _ _ => Or.inl h⟩

theorem coverInv_step {a : Act} (h : CoverInv s) (hok : DropOk s a) (hst : step s a = some t) :
    CoverInv t := by
  cases a with
  | conn a =>
    simp only [step, Option.ite_none_right_eq_some, Option.map_eq_some_iff] at hst
    obtain ⟨ha, c, hc, rfl⟩ := hst
    have hstep := (Conn.step_stepped h.base.agree hc).2
    refine ⟨Conn.base_stepped h.base hstep, covered_stepped h ha hstep, ?_⟩
    intro k hk
    rcases hstep.mem_threads hk with hk | ⟨call, rfl⟩
    · exact h.callers k hk
    · exact ha
  | copy k =>
    simp only [step, Option.ite_none_right_eq_some, Option.some.injEq] at hst
    obtain ⟨-, rfl⟩ := hst
    exact ⟨h.base, .of_lasting (Or.inr (Or.inl (by simp))),
      fun j hj => List.mem_cons_of_mem _ (h.callers j hj)⟩
  | drop k =>
    simp only [step, Option.ite_none_right_eq_some, Option.some.injEq] at hst
    obtain ⟨⟨-, hk⟩, rfl⟩ := hst
    refine ⟨h.base, hok, ?_⟩
    intro j hj
    by_cases hjk : j = k
    · subst hjk
      exact hk.resolve_left hj
    · exact (List.mem_erase_of_ne hjk).mpr (h.callers j hj)
  | removeConnection =>
    simp only [step, Option.ite_none_right_eq_some, Option.map_eq_some_iff] at hst
    obtain ⟨-, c, hc, rfl⟩ := hst
    have hstep := (Conn.step_stepped h.base.agree hc).2
    refine ⟨Conn.base_stepped h.base hstep, .of_lasting (Or.inr (Or.inr ?_)), ?_⟩
    · exact ⟨.connectDestroyed, Conn.mem_pending_of_queue hc, rfl⟩
    · intro k hk
      rcases hstep.mem_threads hk with hk | ⟨call, hcall⟩
      · exact h.callers k hk
      · cases hcall

/-- **Functors bound to `this` run on a live connection** in every run whose drops are
`DropOk`. -/
theorem raw_runs_alive {r : Reactor ι} {c : ι} (hr : Conn.Fresh r c) (mark : Nat) (hw wc : Bool)
    {as : List Act} (hrun : Steps.run (Steps.guarded DropOk step)
      (init r c mark hw wc : SharedConn ι β) as = some t) : RawSafe t := by
  have hinv : CoverInv t := Steps.run_invariant (I := CoverInv) (fun s a u h hs => by
    obtain ⟨hok, hs⟩ := Steps.guarded_eq_some.mp hs
    exact coverInv_step h hok hs) ?_ hrun
  · intro f fs rest hs hf
    refine hinv.covered.batch f ?_ hf
    rw [Conn.batch, Conn.position_of_loop hs rfl]
    exact List.mem_cons_self
  · exact ⟨Conn.base_init hr mark hw wc, .of_lasting (Or.inl rfl), fun k hk => absurd rfl hk⟩

/-- A connection on fd 5 that has its loop for itself. -/
def shared : SharedConn Unit (List UInt8) := init (Reactor.fresh fun _ => 5) () 64 false true

/-- The connection is established, and `connectionCallback_` gives a pointer to the thread 1. -/
def opened : List Act :=
  [.conn (.enter .connectEstablished (.wrote 0) (.data [])), .copy 1, .conn .ret]

/-- The peer closes, and the loop comes to the batch of `connectDestroyed`. -/
def closed : List Act :=
  [.conn (.poll [(5, POLLIN)])] ++ (Conn.goes 4).map .conn ++ [.conn .ret] ++
    (Conn.goes 1).map .conn ++ [.removeConnection] ++ (Conn.goes 4).map .conn

/-- The thread calls `startRead()`. -/
def starts : List Act := [.conn (.begin 1 .startRead), .conn (.micro 1)]

/-- The functor of the thread is in the batch of `connectDestroyed`. -/
def droppedInTime : List Act := opened ++ starts ++ closed ++ [.drop 1]

theorem raw_runs_alive_inTime :
    ∃ t, Steps.run (Steps.guarded DropOk step) shared droppedInTime = some t ∧
      t.conn.batch = [.startReadInLoop, .connectDestroyed] ∧ t.owner = false ∧ t.copies = [] ∧
      RawSafe t := by
  have hobs : (Steps.run (Steps.guarded DropOk step) shared droppedInTime).any (fun t => decide
      (t.conn.batch = [.startReadInLoop, .connectDestroyed] ∧ t.owner = false ∧
        t.copies = [])) = true := by decide
  obtain ⟨t, ht, hobs⟩ := (Option.any_eq_true _ _).mp hobs
  obtain ⟨h1, h2, h3⟩ := of_decide_eq_true hobs
  exact ⟨t, ht, h1, h2, h3, raw_runs_alive Conn.fresh_alone 64 false true ht⟩

/-- The functor of the thread comes after this batch has been taken, and the thread drops its
pointer. -/
def droppedTooLate : List Act :=
  opened ++ closed ++ starts ++ [.drop 1] ++ (Conn.goes 3).map .conn ++ [.conn (.poll [])] ++
    (Conn.goes 2).map .conn

/-- The last pointers are destroyed with the batch of `connectDestroyed`, and the next one runs
`startReadInLoop`. -/
theorem runs_dead : ∃ t, Steps.run step shared droppedTooLate = some t ∧ ¬ RawSafe t := by
  have hobs : (Steps.run step shared droppedTooLate).any (fun t => decide
      (t.conn.stack = [.functors [.startReadInLoop]] ∧ ¬ t.Alive)) = true := by decide
  obtain ⟨t, ht, hobs⟩ := (Option.any_eq_true _ _).mp hobs
  obtain ⟨hs, hdead⟩ := of_decide_eq_true hobs
  exact ⟨t, ht, fun h => hdead (h _ _ _ hs rfl)⟩

end SharedConn

end SimpleNet
