import SimpleNet.Connection.Basic
import SimpleNet.Reactor.Views

/-!
# What a step of a connection can do

Every invariant of a connection is proved from the lemmas of this file and not by
unfolding `step`.  `Ran` says what a functor can do, `Called` what a public function
can do, and `Stepped` what a step can do; `runFunctor_ran`, `callNow_called` and
`step_stepped` are the three inversions.  Most functors are a `DataStep`: they move
bytes, queue functors and change the channel's mask, and leave `state_` and the control
of the loop thread alone.

All three assume that the poller's views agree, which every step keeps (`Base.agree`):
then an operation on the channel other than `remove` does not fail.
-/

namespace SimpleNet

open Function (update)

/-- The effects that `DataStep`s have. -/
def Effect.isData : Effect → Bool
  | .sendInLoop .. | .write _ | .shutdownWrite | .queued _ | .call _ => true
  | _ => false

namespace Conn

variable {ι β : Type}

@[simp] theorem emit_trace (s : Conn ι β) (e : Effect) : (s.emit e).trace = s.trace ++ [e] := rfl
@[simp] theorem emit_state (s : Conn ι β) (e : Effect) : (s.emit e).state = s.state := rfl
@[simp] theorem emit_stack (s : Conn ι β) (e : Effect) : (s.emit e).stack = s.stack := rfl
@[simp] theorem emit_channel (s : Conn ι β) (e : Effect) : (s.emit e).channel = s.channel := rfl
@[simp] theorem emit_reading (s : Conn ι β) (e : Effect) : (s.emit e).reading = s.reading := rfl
@[simp] theorem emit_toReactor (s : Conn ι β) (e : Effect) :
    (s.emit e).toReactor = s.toReactor := rfl
@[simp] theorem emit_outputBuffer (s : Conn ι β) (e : Effect) :
    (s.emit e).outputBuffer = s.outputBuffer := rfl
@[simp] theorem emit_pendingFunctors (s : Conn ι β) (e : Effect) :
    (s.emit e).pendingFunctors = s.pendingFunctors := rfl

@[simp] theorem push_trace (s : Conn ι β) (fs : List (Frame ι)) : (s.push fs).trace = s.trace := rfl
@[simp] theorem push_state (s : Conn ι β) (fs : List (Frame ι)) : (s.push fs).state = s.state := rfl
@[simp] theorem push_stack (s : Conn ι β) (fs : List (Frame ι)) :
    (s.push fs).stack = fs ++ s.stack := rfl
@[simp] theorem push_channel (s : Conn ι β) (fs : List (Frame ι)) :
    (s.push fs).channel = s.channel := rfl
@[simp] theorem push_reading (s : Conn ι β) (fs : List (Frame ι)) :
    (s.push fs).reading = s.reading := rfl
@[simp] theorem push_toReactor (s : Conn ι β) (fs : List (Frame ι)) :
    (s.push fs).toReactor = s.toReactor := rfl
@[simp] theorem push_outputBuffer (s : Conn ι β) (fs : List (Frame ι)) :
    (s.push fs).outputBuffer = s.outputBuffer := rfl
@[simp] theorem push_pendingFunctors (s : Conn ι β) (fs : List (Frame ι)) :
    (s.push fs).pendingFunctors = s.pendingFunctors := rfl

@[simp] theorem setState_trace (s : Conn ι β) (fn : Fn) (st : StateE) :
    (s.setState fn st).trace = s.trace ++ [.setState fn s.state st] := rfl
@[simp] theorem setState_state (s : Conn ι β) (fn : Fn) (st : StateE) :
    (s.setState fn st).state = st := rfl
@[simp] theorem setState_stack (s : Conn ι β) (fn : Fn) (st : StateE) :
    (s.setState fn st).stack = s.stack := rfl
@[simp] theorem setState_channel (s : Conn ι β) (fn : Fn) (st : StateE) :
    (s.setState fn st).channel = s.channel := rfl
@[simp] theorem setState_reading (s : Conn ι β) (fn : Fn) (st : StateE) :
    (s.setState fn st).reading = s.reading := rfl
@[simp] theorem setState_toReactor (s : Conn ι β) (fn : Fn) (st : StateE) :
    (s.setState fn st).toReactor = s.toReactor := rfl
@[simp] theorem setState_outputBuffer (s : Conn ι β) (fn : Fn) (st : StateE) :
    (s.setState fn st).outputBuffer = s.outputBuffer := rfl
@[simp] theorem setState_pendingFunctors (s : Conn ι β) (fn : Fn) (st : StateE) :
    (s.setState fn st).pendingFunctors = s.pendingFunctors := rfl

variable [DecidableEq ι]

theorem onChannel_ok {s t : Conn ι β} {op : Reactor.Op} (h : s.onChannel op = .ok t) :
    ∃ r, s.toReactor.exec s.channel op = .ok r ∧ t = { s with toReactor := r } := by
  unfold onChannel at h
  cases he : s.toReactor.exec s.channel op with
  | error a => rw [he] at h; cases h
  | ok r =>
    rw [he] at h
    exact ⟨r, rfl, (Except.ok.inj h).symm⟩

theorem onChannel_eq {s : Conn ι β} (h : s.toReactor.Agree) {op : Reactor.Op} (hop : op ≠ .remove) :
    s.onChannel op =
      .ok { s with toReactor := s.toReactor.setMask s.channel (op.mask s.ch.events) } := by
  unfold onChannel
  rw [Reactor.exec_eq_setMask h _ hop]
  rfl

/-! ### Data steps -/

end Conn

theorem StateE.Live.ne {st : StateE} (h : st.Live) : st ≠ .kDisconnected := by
  rcases h with rfl | rfl <;> simp

theorem StateE.live_of_ne {st : StateE} (h1 : st ≠ .kConnecting) (h2 : st ≠ .kDisconnected) :
    st.Live := by
  cases st with
  | kDisconnected => exact absurd rfl h2
  | kConnecting => exact absurd rfl h1
  | kConnected => exact Or.inl rfl
  | kDisconnecting => exact Or.inr rfl

/-- The connection queues such functors: not the callbacks of its channel, and no
`sendInLoop` before it is up. -/
def Functor.Queueable (st : StateE) : Functor → Prop
  | .sendInLoop _ => st ≠ .kConnecting
  | .handleRead | .handleWrite | .handleClose | .handleError => False
  | _ => True

instance (st : StateE) : (f : Functor) → Decidable (f.Queueable st)
  | .sendInLoop _ => inferInstanceAs (Decidable (st ≠ .kConnecting))
  | .handleRead | .handleWrite | .handleClose | .handleError => .isFalse id
  | .connectEstablished | .connectDestroyed | .shutdownInLoop | .forceCloseInLoop
  | .startReadInLoop | .stopReadInLoop | .addTimerInLoop | .writeComplete | .highWaterMark _
  | .other => .isTrue trivial

namespace Conn

variable {ι β : Type} [DecidableEq ι]

/-- `state_`, the stack, the threads and the life-cycle effects stay as they are; the
channel's mask may change by one operation. -/
structure DataStep (s t : Conn ι β) : Prop where
  state : t.state = s.state
  channel : t.channel = s.channel
  stack : t.stack = s.stack
  threads : t.threads = s.threads
  aborted : t.aborted = s.aborted
  trace : ∃ es, t.trace = s.trace ++ es ∧ ∀ e ∈ es, e.isData = true
  pending : ∃ fs, t.pendingFunctors = s.pendingFunctors ++ fs ∧ ∀ f ∈ fs, f.Queueable s.state
  reactor : t.toReactor = s.toReactor ∨ ∃ m, t.toReactor = s.toReactor.setMask s.channel m

theorem DataStep.refl (s : Conn ι β) : DataStep s s :=
  ⟨rfl, rfl, rfl, rfl, rfl, ⟨[], by simp⟩, ⟨[], by simp⟩, Or.inl rfl⟩

theorem DataStep.trans_of {s t u : Conn ι β} (h : DataStep s t) (g : DataStep t u)
    (hr : u.toReactor = s.toReactor ∨ ∃ m, u.toReactor = s.toReactor.setMask s.channel m) :
    DataStep s u where
  state := g.state.trans h.state
  channel := g.channel.trans h.channel
  stack := g.stack.trans h.stack
  threads := g.threads.trans h.threads
  aborted := g.aborted.trans h.aborted
  trace := by
    obtain ⟨es, he, hd⟩ := h.trace
    obtain ⟨es', he', hd'⟩ := g.trace
    refine ⟨es ++ es', by rw [he', he, List.append_assoc], ?_⟩
    intro e hm
    rcases List.mem_append.mp hm with hm | hm
    · exact hd e hm
    · exact hd' e hm
  pending := by
    obtain ⟨fs, he, hd⟩ := h.pending
    obtain ⟨fs', he', hd'⟩ := g.pending
    refine ⟨fs ++ fs', by rw [he', he, List.append_assoc], ?_⟩
    intro f hm
    rcases List.mem_append.mp hm with hm | hm
    · exact hd f hm
    · exact h.state ▸ hd' f hm
  reactor := hr

/-- A step without an operation on the channel, then any step. -/
theorem DataStep.trans {s t u : Conn ι β} (h : DataStep s t) (hr : t.toReactor = s.toReactor)
    (g : DataStep t u) : DataStep s u :=
  h.trans_of g (by rw [← hr, ← h.channel]; exact g.reactor)

/-- Any step, then a step without an operation on the channel. -/
theorem DataStep.trans' {s t u : Conn ι β} (h : DataStep s t) (g : DataStep t u)
    (hr : u.toReactor = t.toReactor) : DataStep s u :=
  h.trans_of g (hr ▸ h.reactor)

theorem DataStep.agree {s t : Conn ι β} (h : DataStep s t) (hA : s.toReactor.Agree) :
    t.toReactor.Agree := by
  rcases h.reactor with hr | ⟨m, hr⟩
  · exact hr ▸ hA
  · exact hr ▸ Reactor.agree_setMask hA _ _

theorem dataStep_emit (s : Conn ι β) {e : Effect} (he : e.isData = true) : DataStep s (s.emit e) :=
  ⟨rfl, rfl, rfl, rfl, rfl, ⟨[e], rfl, by simpa using he⟩, ⟨[], by simp⟩, Or.inl rfl⟩

theorem dataStep_queueInLoop (s : Conn ι β) {f : Functor}
    (hf : f.Queueable s.state) : DataStep s (s.queueInLoop f) :=
  ⟨rfl, rfl, rfl, rfl, rfl, ⟨[.queued f], rfl, by simp [Effect.isData]⟩,
    ⟨[f], rfl, by simpa using hf⟩, Or.inl rfl⟩

theorem dataStep_outputBuffer (s : Conn ι β) (b : β) : DataStep s { s with outputBuffer := b } :=
  ⟨rfl, rfl, rfl, rfl, rfl, ⟨[], by simp⟩, ⟨[], by simp⟩, Or.inl rfl⟩

theorem dataStep_reading (s : Conn ι β) (b : Bool) : DataStep s { s with reading := b } :=
  ⟨rfl, rfl, rfl, rfl, rfl, ⟨[], by simp⟩, ⟨[], by simp⟩, Or.inl rfl⟩

theorem dataStep_timers (s : Conn ι β) (n : Nat) : DataStep s { s with timers := n } :=
  ⟨rfl, rfl, rfl, rfl, rfl, ⟨[], by simp⟩, ⟨[], by simp⟩, Or.inl rfl⟩

theorem dataStep_setMask (s : Conn ι β) (m : Mask) :
    DataStep s { s with toReactor := s.toReactor.setMask s.channel m } :=
  ⟨rfl, rfl, rfl, rfl, rfl, ⟨[], by simp⟩, ⟨[], by simp⟩, Or.inr ⟨m, rfl⟩⟩

theorem dataStep_shutdownInLoop (s : Conn ι β) :
    DataStep s s.shutdownInLoop ∧ s.shutdownInLoop.toReactor = s.toReactor := by
  unfold shutdownInLoop
  split
  · exact ⟨.refl s, rfl⟩
  · exact ⟨dataStep_emit s rfl, rfl⟩

/-- The end of `handleWrite`, when the buffer is drained. -/
theorem dataStep_drained (s : Conn ι β) :
    let x := if s.writeCompleteCallback then s.queueInLoop .writeComplete else s
    let t := if x.state = .kDisconnecting then x.shutdownInLoop else x
    DataStep s t ∧ t.toReactor = s.toReactor := by
  intro x t
  have hx : DataStep s x ∧ x.toReactor = s.toReactor := by
    unfold x
    split
    · exact ⟨dataStep_queueInLoop s trivial, rfl⟩
    · exact ⟨.refl s, rfl⟩
  unfold t
  split
  · obtain ⟨h1, h2⟩ := dataStep_shutdownInLoop x
    exact ⟨hx.1.trans hx.2 h1, h2.trans hx.2⟩
  · exact hx

theorem dataStep_startReadInLoop {s : Conn ι β} (hA : s.toReactor.Agree) :
    ∃ t, s.startReadInLoop = .ok t ∧ DataStep s t := by
  unfold startReadInLoop
  split
  · rw [onChannel_eq hA (by simp)]
    exact ⟨_, rfl, (dataStep_setMask s _).trans' (dataStep_reading _ true) rfl⟩
  · exact ⟨_, rfl, .refl s⟩

theorem dataStep_stopReadInLoop {s : Conn ι β} (hA : s.toReactor.Agree) :
    ∃ t, s.stopReadInLoop = .ok t ∧ DataStep s t := by
  unfold stopReadInLoop
  split
  · rw [onChannel_eq hA (by simp)]
    exact ⟨_, rfl, (dataStep_setMask s _).trans' (dataStep_reading _ false) rfl⟩
  · exact ⟨_, rfl, .refl s⟩

variable [Fifo β UInt8]

theorem dataStep_bufferRest {s : Conn ι β} (hA : s.toReactor.Agree) (rest : List UInt8) :
    ∃ t, s.bufferRest rest = .ok t ∧ DataStep s t := by
  unfold bufferRest
  simp only
  generalize hu : (if Fifo.readable s.outputBuffer + rest.length ≥ s.highWaterMark ∧
    s.highWaterMarkCallback = true then
      s.queueInLoop (.highWaterMark (Fifo.readable s.outputBuffer + rest.length)) else s) = u
  have hsu : DataStep s u ∧ u.toReactor = s.toReactor := by
    rw [← hu]
    split
    · exact ⟨dataStep_queueInLoop s trivial, rfl⟩
    · exact ⟨.refl s, rfl⟩
  have huv := dataStep_outputBuffer u (Fifo.append u.outputBuffer rest)
  split
  · exact ⟨_, rfl, hsu.1.trans hsu.2 huv⟩
  · rw [onChannel_eq (by rw [← hsu.2] at hA; exact hA) (by simp)]
    exact ⟨_, rfl, hsu.1.trans hsu.2 (huv.trans rfl (dataStep_setMask _ _))⟩

theorem dataStep_sendInLoop {s : Conn ι β} (hA : s.toReactor.Agree) (m : Message)
    (w : WriteResult) : ∃ t, s.sendInLoop m w = .ok t ∧ DataStep s t := by
  unfold sendInLoop
  split
  · exact ⟨_, rfl, dataStep_emit s rfl⟩
  split
  · have h1 := dataStep_emit s (e := .sendInLoop m s.state (some w)) rfl
    cases w with
    | wrote n =>
      simp only
      have h2 := h1.trans rfl (dataStep_emit _ (e := .write (m.bytes.take n)) rfl)
      split
      · refine ⟨_, rfl, ?_⟩
        split
        · exact h2.trans rfl (dataStep_queueInLoop _ trivial)
        · exact h2
      · obtain ⟨t, ht, hd⟩ := dataStep_bufferRest (s := (s.emit (.sendInLoop m s.state
          (some (.wrote n)))).emit (.write (m.bytes.take n))) hA (m.bytes.drop n)
        exact ⟨t, ht, h2.trans rfl hd⟩
    | error errno =>
      simp only
      split
      · obtain ⟨t, ht, hd⟩ := dataStep_bufferRest (s := s.emit (.sendInLoop m s.state
          (some (.error errno)))) hA m.bytes
        exact ⟨t, ht, h1.trans rfl hd⟩
      · exact ⟨_, rfl, h1⟩
  · have h1 := dataStep_emit s (e := .sendInLoop m s.state none) rfl
    simp only
    split
    · obtain ⟨t, ht, hd⟩ := dataStep_bufferRest (s := s.emit (.sendInLoop m s.state none)) hA
        m.bytes
      exact ⟨t, ht, h1.trans rfl hd⟩
    · exact ⟨_, rfl, h1⟩

theorem dataStep_handleWrite {s : Conn ι β} (hA : s.toReactor.Agree) (w : WriteResult) :
    ∃ t, s.handleWrite w = .ok t ∧ DataStep s t := by
  unfold handleWrite
  split
  · cases w with
    | error errno => exact ⟨_, rfl, .refl s⟩
    | wrote k =>
      simp only
      split
      · have h1 := dataStep_emit s (e := .write ((Fifo.peek s.outputBuffer).take
          (min k (Fifo.readable s.outputBuffer)))) rfl
        have h2 := h1.trans rfl (dataStep_outputBuffer _
          (Fifo.retrieve s.outputBuffer (min k (Fifo.readable s.outputBuffer))))
        split
        · rw [onChannel_eq (by exact hA) (by simp)]
          have h3 := h2.trans rfl (dataStep_setMask _ (Reactor.Op.mask .disableWriting s.ch.events))
          obtain ⟨h4, h5⟩ := dataStep_drained { s with
            trace := s.trace ++ [.write ((Fifo.peek s.outputBuffer).take
              (min k (Fifo.readable s.outputBuffer)))]
            outputBuffer := Fifo.retrieve s.outputBuffer (min k (Fifo.readable s.outputBuffer))
            toReactor := s.toReactor.setMask s.channel (Reactor.Op.mask .disableWriting s.ch.events) }
          exact ⟨_, rfl, h3.trans' h4 h5⟩
        · exact ⟨_, rfl, h2⟩
      · exact ⟨_, rfl, .refl s⟩
  · exact ⟨_, rfl, .refl s⟩

/-! ### Functors -/

/-- `connectEstablished` has called `connectionCallback_`. -/
def up (s : Conn ι β) : Conn ι β :=
  { s with
    state := .kConnected
    toReactor := (s.toReactor.setChan s.channel { s.ch with tied := true }).setMask s.channel
      (s.ch.events ||| kReadEvent)
    trace := s.trace ++ [.setState .connectEstablished s.state .kConnected, .connectionCallback true]
    stack := .user :: s.stack }

/-- `fn` has disconnected the connection and called `connectionCallback_`; the frame `f`
is left of it. -/
def down (s : Conn ι β) (fn : Fn) (es : List Effect) (f : Frame ι) : Conn ι β :=
  { s with
    state := .kDisconnected
    toReactor := s.toReactor.setMask s.channel kNoneEvent
    trace := s.trace ++
      (es ++ [.setState fn s.state .kDisconnected, .disableAll, .connectionCallback false])
    stack := .user :: f :: s.stack }

omit [Fifo β UInt8] in
theorem agree_tied {s : Conn ι β} (hA : s.toReactor.Agree) :
    (s.toReactor.setChan s.channel { s.ch with tied := true }).Agree :=
  (Reactor.sameViews_setChan s.toReactor s.channel { s.ch with tied := true }
    rfl rfl rfl rfl).agree hA

omit [Fifo β UInt8] in
theorem connectEstablished_eq {s : Conn ι β} (hA : s.toReactor.Agree)
    (hs : s.state = .kConnecting) : s.connectEstablished = .ok s.up := by
  unfold connectEstablished
  rw [Assertion.check_of hs]
  simp only [bind, Except.bind]
  rw [onChannel_eq (by exact agree_tied hA) (by simp)]
  simp [up, connectionCallback, push, emit, setState, ch, Reactor.setChan, Reactor.Op.mask, pure,
    Except.pure]

omit [Fifo β UInt8] in
theorem connectDestroyed_eq {s : Conn ι β} (hA : s.toReactor.Agree) (hs : s.state = .kConnected) :
    s.connectDestroyed = .ok (s.down .connectDestroyed [] .remove) := by
  unfold connectDestroyed
  rw [if_pos hs]
  simp only [bind, Except.bind]
  rw [onChannel_eq (by exact hA) (by simp)]
  simp [down, connectionCallback, push, emit, setState, Reactor.Op.mask, pure, Except.pure]

omit [Fifo β UInt8] in
theorem handleClose_eq {s : Conn ι β} (hA : s.toReactor.Agree) (hs : s.state.Live) :
    s.handleClose = .ok (s.down .handleClose [.handleClose] .closeCallback) := by
  unfold handleClose
  rw [Assertion.check_of (p := _ ∨ _) hs]
  simp only [bind, Except.bind]
  rw [onChannel_eq (by exact hA) (by simp)]
  simp [down, connectionCallback, push, emit, setState, Reactor.Op.mask, pure, Except.pure]

end Conn

/-- The functor calls `handleClose`, if the connection is live. -/
def Functor.closes (r : ReadResult) : Functor → Bool
  | .handleClose | .forceCloseInLoop => true
  | .handleRead => r == .data []
  | _ => false

namespace Conn

variable {ι β : Type} [DecidableEq ι] [Fifo β UInt8]

/-- Where a functor leaves a channel alone that asks for nothing. -/
def Inert (s : Conn ι β) : Functor → Prop
  | .startReadInLoop => False
  | .stopReadInLoop => s.reading = false
  | .sendInLoop _ => s.state = .kDisconnected
  | _ => True

omit [DecidableEq ι] [Fifo β UInt8] in
theorem isWriting_of_none {s : Conn ι β} (h : s.ch.events = kNoneEvent) : s.isWriting = false := by
  rw [isWriting, Channel.isWriting, h]
  decide

omit [DecidableEq ι] [Fifo β UInt8] in
theorem isReading_of_none {s : Conn ι β} (h : s.ch.events = kNoneEvent) : s.isReading = false := by
  rw [isReading, Channel.isReading, h]
  decide

theorem sendInLoop_of_disconnected {s t : Conn ι β} {m : Message} {w : WriteResult}
    (hs : s.state = .kDisconnected) (h : s.sendInLoop m w = .ok t) :
    t.toReactor = s.toReactor := by
  rw [sendInLoop, if_pos hs] at h
  exact Except.ok.inj h ▸ rfl

theorem handleWrite_of_none {s t : Conn ι β} {w : WriteResult} (hn : s.ch.events = kNoneEvent)
    (h : s.handleWrite w = .ok t) : t = s := by
  unfold handleWrite at h
  rw [isWriting_of_none hn] at h
  exact (Except.ok.inj h).symm

omit [Fifo β UInt8] in
theorem stopReadInLoop_of_none {s t : Conn ι β} (hn : s.ch.events = kNoneEvent)
    (hr : s.reading = false) (h : s.stopReadInLoop = .ok t) : t = s := by
  rw [stopReadInLoop, isReading_of_none hn, hr] at h
  exact (Except.ok.inj h).symm

/-- What a functor does when no assertion fails. -/
inductive Ran (s : Conn ι β) (r : ReadResult) : Functor → Conn ι β → Prop
  | data {f t} (hd : DataStep s t)
    (hi : s.ch.events = kNoneEvent → Inert s f → t.toReactor = s.toReactor) : Ran s r f t
  | user {f} : Ran s r f (s.push [.user])
  | message (b : β) (es : List UInt8) (hr : r = .data es) (hes : es ≠ []) :
    Ran s r .handleRead (({ s with inputBuffer := b }.emit .messageCallback).push [.user])
  | up (hs : s.state = .kConnecting) : Ran s r .connectEstablished s.up
  | destroyed (hs : s.state = .kConnected) :
    Ran s r .connectDestroyed (s.down .connectDestroyed [] .remove)
  | remove (hs : s.state ≠ .kConnected) : Ran s r .connectDestroyed (s.push [.remove])
  | closed {f} (hf : f.closes r = true) (hs : s.state.Live) :
    Ran s r f (s.down .handleClose [.handleClose] .closeCallback)

/-- The assertions that a functor may fail. -/
def Refused (s : Conn ι β) (r : ReadResult) (f : Functor) (e : Assertion) : Prop :=
  (e = .established ∧ f = .connectEstablished ∧ s.state ≠ .kConnecting) ∨
    (e = .handleClose ∧ f.closes r = true ∧ f ≠ .forceCloseInLoop ∧ ¬ s.state.Live)

theorem runFunctor_ran {s : Conn ι β} (hA : s.toReactor.Agree) (w : WriteResult) (r : ReadResult)
    (f : Functor) : (∃ t, s.runFunctor w r f = .ok t ∧ Ran s r f t) ∨
      ∃ e, s.runFunctor w r f = .error e ∧ Refused s r f e := by
  have hclose : ∀ f', f'.closes r = true → f' ≠ .forceCloseInLoop →
      (∃ t, s.handleClose = .ok t ∧ Ran s r f' t) ∨
        ∃ e, s.handleClose = .error e ∧ Refused s r f' e := by
    intro f' hf hne
    by_cases hs : s.state.Live
    · exact Or.inl ⟨_, handleClose_eq hA hs, .closed hf hs⟩
    · refine Or.inr ⟨.handleClose, ?_, Or.inr ⟨rfl, hf, hne, hs⟩⟩
      unfold handleClose
      rw [Assertion.check_of_not (p := _ ∨ _) hs]
      rfl
  cases f with
  | connectEstablished =>
    by_cases hs : s.state = .kConnecting
    · exact Or.inl ⟨_, connectEstablished_eq hA hs, .up hs⟩
    · refine Or.inr ⟨.established, ?_, Or.inl ⟨rfl, rfl, hs⟩⟩
      simp [runFunctor, connectEstablished, hs, bind, Except.bind]
  | connectDestroyed =>
    by_cases hs : s.state = .kConnected
    · exact Or.inl ⟨_, connectDestroyed_eq hA hs, .destroyed hs⟩
    · exact Or.inl ⟨_, if_neg hs, .remove hs⟩
  | sendInLoop m =>
    obtain ⟨t, ht, hd⟩ := dataStep_sendInLoop hA m w
    exact Or.inl ⟨t, ht, .data hd fun _ hi => sendInLoop_of_disconnected hi ht⟩
  | shutdownInLoop =>
    exact Or.inl ⟨_, rfl, .data (dataStep_shutdownInLoop s).1
      fun _ _ => (dataStep_shutdownInLoop s).2⟩
  | forceCloseInLoop =>
    by_cases hs : s.state.Live
    · exact Or.inl ⟨_, (if_pos hs).trans (handleClose_eq hA hs), .closed rfl hs⟩
    · exact Or.inl ⟨_, if_neg hs, .data (.refl s) fun _ _ => rfl⟩
  | startReadInLoop =>
    obtain ⟨t, ht, hd⟩ := dataStep_startReadInLoop hA
    exact Or.inl ⟨t, ht, .data hd fun _ hi => hi.elim⟩
  | stopReadInLoop =>
    obtain ⟨t, ht, hd⟩ := dataStep_stopReadInLoop hA
    exact Or.inl ⟨t, ht, .data hd fun hn hi => stopReadInLoop_of_none hn hi ht ▸ rfl⟩
  | addTimerInLoop => exact Or.inl ⟨_, rfl, .data (dataStep_timers s _) fun _ _ => rfl⟩
  | writeComplete => exact Or.inl ⟨_, rfl, .user⟩
  | highWaterMark len => exact Or.inl ⟨_, rfl, .user⟩
  | handleRead =>
    cases r with
    | error errno => exact Or.inl ⟨_, rfl, .data (.refl s) fun _ _ => rfl⟩
    | data es =>
      cases es with
      | nil => exact hclose _ rfl (by simp)
      | cons e es => exact Or.inl ⟨_, rfl, .message _ (e :: es) rfl (by simp)⟩
  | handleWrite =>
    obtain ⟨t, ht, hd⟩ := dataStep_handleWrite hA w
    exact Or.inl ⟨t, ht, .data hd fun hn _ => handleWrite_of_none hn ht ▸ rfl⟩
  | handleClose => exact hclose _ rfl (by simp)
  | handleError => exact Or.inl ⟨_, rfl, .data (.refl s) fun _ _ => rfl⟩
  | other => exact Or.inl ⟨_, rfl, .user⟩

/-! ### Calls -/

end Conn

/-- The functor that a call on the loop thread comes down to, if it only runs one. -/
def Call.direct (st : StateE) : Call → Option Functor
  | .send m => if st = .kConnected then some (.sendInLoop m) else none
  | .startRead => some .startReadInLoop
  | .stopRead => some .stopReadInLoop
  | _ => none

theorem Call.direct_cases {st : StateE} {c : Call} {f : Functor} (h : c.direct st = some f) :
    (∃ m, f = .sendInLoop m ∧ st = .kConnected) ∨ f = .startReadInLoop ∨ f = .stopReadInLoop := by
  cases c with
  | send m =>
    simp only [Call.direct] at h
    split at h
    · next hst => exact Or.inl ⟨m, (Option.some.inj h).symm, hst⟩
    · cases h
  | startRead => exact Or.inr (Or.inl (Option.some.inj h).symm)
  | stopRead => exact Or.inr (Or.inr (Option.some.inj h).symm)
  | shutdown => cases h
  | forceClose => cases h
  | forceCloseWithDelay => cases h

theorem Call.direct_closes {st : StateE} {c : Call} {f : Functor} (h : c.direct st = some f)
    (r : ReadResult) : f.closes r = false := by
  rcases Call.direct_cases h with ⟨m, rfl, -⟩ | rfl | rfl <;> rfl

namespace Conn

variable {ι β : Type} [DecidableEq ι] [Fifo β UInt8]

theorem callNow_direct {s : Conn ι β} (w : WriteResult) {c : Call} {f : Functor}
    (hc : c.direct s.state = some f) :
    s.callNow true w c = (s.emit (.call c)).runFunctor w (.error 0) f := by
  have hone : ∀ u : Conn ι β, runMicros true w [.runInLoop f] u = u.runFunctor w (.error 0) f := by
    intro u
    simp only [runMicros, runMicro, if_true]
    cases u.runFunctor w (.error 0) f <;> rfl
  cases c with
  | send m =>
    simp only [Call.direct] at hc
    split at hc
    · next hs =>
      obtain rfl := Option.some.inj hc
      rw [callNow, Call.body, TcpConnection.send, if_pos hs, hone]
    · cases hc
  | startRead | stopRead =>
    obtain rfl := Option.some.inj hc
    exact hone _
  | shutdown => cases hc
  | forceClose => cases hc
  | forceCloseWithDelay => cases hc

/-- What any other call does. -/
inductive Called (s : Conn ι β) : Call → Conn ι β → Prop
  | data {c t} (hd : DataStep s t) (hr : t.toReactor = s.toReactor) : Called s c t
  | shutdown {t}
    (hd : DataStep (((s.emit (.call .shutdown)).setState .shutdown .kConnected).setState .shutdown
      .kDisconnecting) t) (hr : t.toReactor = s.toReactor) : Called s .shutdown t
  | close {c fn t} (hc : c = .forceClose ∧ fn = .forceClose ∨
      c = .forceCloseWithDelay ∧ fn = .forceCloseWithDelay) (hs : s.state.Live)
    (hd : DataStep ((s.emit (.call c)).setState fn .kDisconnecting) t)
    (hr : t.toReactor = s.toReactor) : Called s c t

theorem callNow_called (s : Conn ι β) (inLoop : Bool) (w : WriteResult) (c : Call)
    (hc : inLoop = true → c.direct s.state = none) :
    ∃ t, s.callNow inLoop w c = .ok t ∧ Called s c t := by
  have hcall := dataStep_emit s (e := .call c) rfl
  cases c with
  | send m =>
    by_cases hs : s.state = .kConnected
    · cases inLoop with
      | true => simp [Call.direct, hs] at hc
      | false =>
        refine ⟨(s.emit (.call (.send m))).queueInLoop (.sendInLoop m), ?_, .data ?_ rfl⟩
        · simp [callNow, Call.body, TcpConnection.send, hs, runMicros, runMicro, Except.bind]
        · exact hcall.trans rfl (dataStep_queueInLoop _ (by simp [Functor.Queueable, hs]))
    · refine ⟨s.emit (.call (.send m)), ?_, .data hcall rfl⟩
      simp [callNow, Call.body, TcpConnection.send, hs, runMicros]
  | startRead =>
    cases inLoop with
    | true => simp [Call.direct] at hc
    | false => exact ⟨_, rfl, .data (hcall.trans rfl (dataStep_queueInLoop _ trivial)) rfl⟩
  | stopRead =>
    cases inLoop with
    | true => simp [Call.direct] at hc
    | false => exact ⟨_, rfl, .data (hcall.trans rfl (dataStep_queueInLoop _ trivial)) rfl⟩
  | shutdown =>
    cases inLoop with
    | true =>
      obtain ⟨h1, h2⟩ := dataStep_shutdownInLoop (((s.emit (.call .shutdown)).setState .shutdown
        .kConnected).setState .shutdown .kDisconnecting)
      exact ⟨_, rfl, .shutdown h1 h2⟩
    | false => exact ⟨_, rfl, .shutdown (dataStep_queueInLoop _ trivial) rfl⟩
  | forceClose =>
    by_cases hs : s.state.Live
    · have hbody : Call.body s.state .forceClose =
          [.setState .forceClose .kDisconnecting, .queueInLoop .forceCloseInLoop] := if_pos hs
      refine ⟨_, ?_, .close (Or.inl ⟨rfl, rfl⟩) hs
        (dataStep_queueInLoop _ (f := .forceCloseInLoop) trivial) rfl⟩
      rw [callNow, hbody]
      rfl
    · have hbody : Call.body s.state .forceClose = [] := if_neg hs
      refine ⟨s.emit (.call .forceClose), ?_, .data hcall rfl⟩
      rw [callNow, hbody]
      rfl
  | forceCloseWithDelay =>
    by_cases hs : s.state.Live
    · have hbody : Call.body s.state .forceCloseWithDelay =
          [.setState .forceCloseWithDelay .kDisconnecting, .runInLoop .addTimerInLoop] := if_pos hs
      cases inLoop with
      | true =>
        refine ⟨_, ?_, .close (Or.inr ⟨rfl, rfl⟩) hs (dataStep_timers _ (s.timers + 1)) rfl⟩
        rw [callNow, hbody]
        rfl
      | false =>
        refine ⟨_, ?_, .close (Or.inr ⟨rfl, rfl⟩) hs
          (dataStep_queueInLoop _ (f := .addTimerInLoop) trivial) rfl⟩
        rw [callNow, hbody]
        rfl
    · have hbody : Call.body s.state .forceCloseWithDelay = [] := if_neg hs
      refine ⟨s.emit (.call .forceCloseWithDelay), ?_, .data hcall rfl⟩
      rw [callNow, hbody]
      rfl

/-! ### Steps -/

end Conn

/-- The tests of `handleEventWithGuard` that fail, and an empty batch. -/
def Frame.Skips {ι : Type} (revents : Mask) : Frame ι → Prop
  | .onClose => (revents.has POLLHUP && !revents.has POLLIN) = false
  | .onError => revents.has (POLLERR ||| POLLNVAL) = false
  | .onRead => revents.has (POLLIN ||| POLLPRI ||| POLLRDHUP) = false
  | .onWrite => revents.has POLLOUT = false
  | .functors [] => True
  | _ => False

namespace Conn

/-- A call on another thread is not interrupted. -/
def Act.isWhole : Act → Bool
  | .begin .. | .micro _ => false
  | _ => true

variable {ι β : Type} [DecidableEq ι] [Fifo β UInt8]

/-- The step runs the functor `f` in the state `u`, which differs from `s` in the stack
and the trace. -/
inductive Runs (s : Conn ι β) : Act → WriteResult → ReadResult → Functor → Conn ι β → Prop
  | functors {w r f fs rest} (hs : s.stack = .functors (f :: fs) :: rest) :
    Runs s (.go w r) w r f { s with stack := .functors fs :: rest }
  | onClose {w r rest} (hs : s.stack = .onClose :: rest)
    (h : (s.ch.revents.has POLLHUP && !s.ch.revents.has POLLIN) = true) :
    Runs s (.go w r) w r .handleClose { s with stack := rest }
  | onError {w r rest} (hs : s.stack = .onError :: rest)
    (h : s.ch.revents.has (POLLERR ||| POLLNVAL) = true) :
    Runs s (.go w r) w r .handleError { s with stack := rest }
  | onRead {w r rest} (hs : s.stack = .onRead :: rest)
    (h : s.ch.revents.has (POLLIN ||| POLLPRI ||| POLLRDHUP) = true) :
    Runs s (.go w r) w r .handleRead { s with stack := rest }
  | onWrite {w r rest} (hs : s.stack = .onWrite :: rest) (h : s.ch.revents.has POLLOUT = true) :
    Runs s (.go w r) w r .handleWrite { s with stack := rest }
  | enter {f w r} (hs : s.inUser = true ∨ s.stack = []) : Runs s (.enter f w r) w r f s
  | call {c w f} (hs : s.inUser = true) (hc : c.direct s.state = some f) :
    Runs s (.call c w) w (.error 0) f (s.emit (.call c))

/-- The functor that a step runs, with the outcome of its `readFd`. -/
def runs (s : Conn ι β) : Act → Option (Functor × ReadResult)
  | .go _ r =>
    match s.stack with
    | .functors (f :: _) :: _ => some (f, r)
    | .onClose :: _ =>
      if s.ch.revents.has POLLHUP && !s.ch.revents.has POLLIN then some (.handleClose, r) else none
    | .onError :: _ =>
      if s.ch.revents.has (POLLERR ||| POLLNVAL) then some (.handleError, r) else none
    | .onRead :: _ =>
      if s.ch.revents.has (POLLIN ||| POLLPRI ||| POLLRDHUP) then some (.handleRead, r) else none
    | .onWrite :: _ => if s.ch.revents.has POLLOUT then some (.handleWrite, r) else none
    | _ => none
  | .enter f _ r => some (f, r)
  | .call c _ => (c.direct s.state).map fun f => (f, .error 0)
  | _ => none

omit [DecidableEq ι] [Fifo β UInt8] in
theorem Runs.runs_eq {s u : Conn ι β} {a : Act} {w : WriteResult} {r : ReadResult} {f : Functor}
    (h : Runs s a w r f u) : s.runs a = some (f, r) := by
  cases h with
  | functors hs => simp [runs, hs]
  | onClose hs h | onError hs h | onRead hs h | onWrite hs h => simpa [runs, hs] using h
  | enter => rfl
  | call hs hc => simp [runs, hc]

/-- The functor that a step runs. -/
def runsFn (s : Conn ι β) (a : Act) : Option Functor := (s.runs a).map Prod.fst

/-- The step is a call of a public function in the state `u`, on the loop thread or not,
that does not come down to a functor. -/
inductive Calls (s : Conn ι β) : Act → Bool → WriteResult → Call → Conn ι β → Prop
  | call {c w} (hs : s.inUser = true) (hc : c.direct s.state = none) :
    Calls s (.call c w) true w c s
  | fire {w} (hs : s.inUser = true) :
    Calls s (.fire w) true w .forceClose { s with timers := s.timers - 1 }
  | offCall {c} : Calls s (.offCall c) false (.wrote 0) c s

/-- The reactor when `loop` has gone on to the channel `c`. -/
def enterChannel (s : Conn ι β) (c : ι) : Reactor ι :=
  let r := { s.toReactor with currentActiveChannel := some c }
  if c = s.channel then r.setChan c { s.ch with eventHandling := true } else r

/-- **What a step does**, when the poller's views agree. -/
inductive Stepped (s : Conn ι β) : Act → Conn ι β → Prop
  | poll {evs l r} (hs : s.stack = []) (hw : s.epollWait evs = some l)
    (hf : { s.toReactor with activeChannels := [] }.fillActiveChannels l = .ok r) :
    Stepped s (.poll evs) { s with
      toReactor := { r with eventHandling := true }
      stack := r.activeChannels.map .handle ++ [.eventsDone, .doPendingFunctors] }
  | ran {a w r f u t} (hu : Runs s a w r f u) (hr : u.runFunctor w r f = .ok t)
    (ht : Ran u r f t) : Stepped s a t
  | refused {a w r f u e} (hu : Runs s a w r f u) (he : Refused u r f e) :
    Stepped s a { s with aborted := some e }
  | called {a l w c u t} (hu : Calls s a l w c u) (hr : u.callNow l w c = .ok t)
    (ht : Called u c t) : Stepped s a t
  | removed {w r rest} (hs : s.stack = .remove :: rest) (hr : s.CanRemove s.channel) :
    Stepped s (.go w r) { s with
      toReactor := s.toReactor.drop s.channel, stack := rest, trace := s.trace ++ [.destroyed] }
  | stuck {w r rest e} (hs : s.stack = .remove :: rest) (hr : ¬ s.CanRemove s.channel)
    (hnone : e = .removeNone → s.ch.events ≠ kNoneEvent) (he : e ≠ .handleClose) :
    Stepped s (.go w r) { s with aborted := some e }
  | closeCallback {w r rest} (hs : s.stack = .closeCallback :: rest) :
    Stepped s (.go w r) { s with stack := rest, trace := s.trace ++ [.closeCallback] }
  | handle {w r c rest} (hs : s.stack = .handle c :: rest) :
    Stepped s (.go w r) { s with
      toReactor := s.enterChannel c
      stack := (if c = s.channel then [.onClose, .onError, .onRead, .onWrite, .handled]
        else [.user]) ++ rest }
  | skip {w r f rest} (hs : s.stack = f :: rest) (hf : f.Skips s.ch.revents) :
    Stepped s (.go w r) { s with stack := rest }
  | handled {w r rest} (hs : s.stack = .handled :: rest) :
    Stepped s (.go w r) { s with
      toReactor := s.toReactor.setChan s.channel { s.ch with eventHandling := false }, stack := rest }
  | eventsDone {w r rest} (hs : s.stack = .eventsDone :: rest) :
    Stepped s (.go w r) { s with
      toReactor := { s.toReactor with currentActiveChannel := none, eventHandling := false }
      stack := rest }
  | doPendingFunctors {w r rest} (hs : s.stack = .doPendingFunctors :: rest) :
    Stepped s (.go w r) { s with
      pendingFunctors := [], stack := .functors s.pendingFunctors :: rest }
  | ret {rest} (hs : s.stack = .user :: rest) : Stepped s .ret { s with stack := rest }
  | queue {f} : Stepped s (.queue f) { s with pendingFunctors := s.pendingFunctors ++ [f] }
  | begin {t c} (hs : s.threads t = []) :
    Stepped s (.begin t c)
      { s.emit (.call c) with threads := update s.threads t (c.body s.state) }
  | write {t fn st ms} (hs : s.threads t = .setState fn st :: ms) :
    Stepped s (.micro t) ({ s with threads := update s.threads t ms }.setState fn st)
  | defer {t m f ms} (hs : s.threads t = m :: ms) (hm : m = .runInLoop f ∨ m = .queueInLoop f) :
    Stepped s (.micro t) ({ s with threads := update s.threads t ms }.queueInLoop f)

omit [DecidableEq ι] [Fifo β UInt8] in
theorem inUser_iff {s : Conn ι β} : s.inUser = true ↔ ∃ rest, s.stack = .user :: rest := by
  unfold inUser
  split
  · next rest h => simp [h]
  · next h => simpa using h

theorem stepped_of_runs {s u t : Conn ι β} {a : Act} {w : WriteResult} {r : ReadResult}
    {f : Functor} (hA : s.toReactor.Agree) (hu : Runs s a w r f u)
    (ht : t = s.settle (u.runFunctor w r f)) : Stepped s a t := by
  have hA' : u.toReactor.Agree := by cases hu <;> exact hA
  rcases runFunctor_ran hA' w r f with ⟨v, hv, hran⟩ | ⟨e, he, href⟩
  · rw [hv] at ht
    exact ht ▸ .ran hu hv hran
  · rw [he] at ht
    exact ht ▸ .refused hu href

theorem stepped_of_calls {s u t : Conn ι β} {a : Act} {c : Call} {inLoop : Bool} {w : WriteResult}
    (hu : Calls s a inLoop w c u) (hc : inLoop = true → c.direct u.state = none)
    (ht : t = s.settle (u.callNow inLoop w c)) : Stepped s a t := by
  obtain ⟨v, hv, hcalled⟩ := callNow_called u inLoop w c hc
  rw [hv] at ht
  exact ht ▸ .called hu hv hcalled

/-- The steps of the loop's own control. -/
theorem stepped_go {s t : Conn ι β} {w : WriteResult} {r : ReadResult} {f : Frame ι}
    {rest : List (Frame ι)} (hA : s.toReactor.Agree) (hs : s.stack = f :: rest)
    (h : (runFrame { s with stack := rest } w r f).map s.settle = some t) :
    Stepped s (.go w r) t := by
  obtain ⟨x, hx, rfl⟩ := Option.map_eq_some_iff.mp h
  cases f with
  | user => cases hx
  | closeCallback =>
    obtain rfl := Option.some.inj hx
    exact .closeCallback hs
  | remove =>
    obtain rfl := Option.some.inj hx
    rcases Reactor.remove_cases hA s.channel with ⟨hc, he⟩ | ⟨a, hc, he, h1, h2⟩
    · simp only [onChannel, he]
      exact .removed hs hc
    · simp only [onChannel, he]
      exact .stuck hs hc h1 h2
  | handle c =>
    have hstep := Stepped.handle (w := w) (r := r) hs
    by_cases hc : c = s.channel
    · simp only [runFrame, if_pos hc, Option.some.injEq] at hx
      subst hx
      simp only [enterChannel, if_pos hc] at hstep
      exact hstep
    · simp only [runFrame, if_neg hc, Option.some.injEq] at hx
      subst hx
      simp only [enterChannel, if_neg hc] at hstep
      exact hstep
  | onClose =>
    by_cases hc : (s.ch.revents.has POLLHUP && !s.ch.revents.has POLLIN) = true
    · refine stepped_of_runs hA (.onClose (w := w) (r := r) hs hc) ?_
      rw [← Option.some.inj hx]
      exact congrArg s.settle (if_pos hc)
    · obtain rfl := (Option.some.inj hx).symm.trans (if_neg hc)
      exact .skip hs (by simpa [Frame.Skips] using hc)
  | onError =>
    by_cases hc : s.ch.revents.has (POLLERR ||| POLLNVAL) = true
    · refine stepped_of_runs hA (.onError (w := w) (r := r) hs hc) ?_
      rw [← Option.some.inj hx]
      exact congrArg s.settle (if_pos hc)
    · obtain rfl := (Option.some.inj hx).symm.trans (if_neg hc)
      exact .skip hs (by simpa [Frame.Skips] using hc)
  | onRead =>
    by_cases hc : s.ch.revents.has (POLLIN ||| POLLPRI ||| POLLRDHUP) = true
    · refine stepped_of_runs hA (.onRead (w := w) (r := r) hs hc) ?_
      rw [← Option.some.inj hx]
      exact congrArg s.settle (if_pos hc)
    · obtain rfl := (Option.some.inj hx).symm.trans (if_neg hc)
      exact .skip hs (by simpa [Frame.Skips] using hc)
  | onWrite =>
    by_cases hc : s.ch.revents.has POLLOUT = true
    · refine stepped_of_runs hA (.onWrite (w := w) (r := r) hs hc) ?_
      rw [← Option.some.inj hx]
      exact congrArg s.settle (if_pos hc)
    · obtain rfl := (Option.some.inj hx).symm.trans (if_neg hc)
      exact .skip hs (by simpa [Frame.Skips] using hc)
  | handled =>
    obtain rfl := Option.some.inj hx
    exact .handled hs
  | eventsDone =>
    obtain rfl := Option.some.inj hx
    exact .eventsDone hs
  | doPendingFunctors =>
    obtain rfl := Option.some.inj hx
    exact .doPendingFunctors hs
  | functors b =>
    cases b with
    | nil =>
      obtain rfl := Option.some.inj hx
      exact .skip hs trivial
    | cons f fs =>
      refine stepped_of_runs hA (.functors (w := w) (r := r) hs) ?_
      rw [← Option.some.inj hx]
      rfl

/-- **Every step is one of `Stepped`.** -/
theorem step_stepped {s t : Conn ι β} {a : Act} (hA : s.toReactor.Agree)
    (h : step s a = some t) : s.aborted = none ∧ Stepped s a t := by
  unfold step at h
  split at h
  · cases h
  next hab =>
  refine ⟨by simpa using hab, ?_⟩
  cases a with
  | poll evs =>
    simp only at h
    split at h
    · next hs =>
      obtain ⟨l, hw, rfl⟩ := Option.map_eq_some_iff.mp h
      obtain ⟨r, hr⟩ := Reactor.fillActiveChannels_ok (l := l)
        (r := { s.toReactor with activeChannels := [] }) fun p hp => by
          have hadd := (Reactor.epollWait_added hA hw hp).1
          exact (Reactor.viewsAgree_of_agree hA p.2).mapped.mpr (by rw [hadd]; simp)
      have hs' : s.stack = [] := List.isEmpty_iff.mp hs
      have := Stepped.poll hs' hw hr
      simpa [settle, poll, hr, bind, Except.bind, pure, Except.pure, push, hs'] using this
    · cases h
  | go w r =>
    simp only at h
    split at h
    · cases h
    · next f rest hs => exact stepped_go hA hs h
  | call c w =>
    simp only at h
    split at h
    · next hs =>
      obtain rfl := Option.some.inj h
      cases hc : c.direct s.state with
      | none => exact stepped_of_calls (.call (w := w) hs hc) (fun _ => hc) rfl
      | some f => exact stepped_of_runs hA (.call hs hc) (by rw [callNow_direct w hc])
    · cases h
  | ret =>
    simp only at h
    split at h
    · next hs =>
      obtain rfl := Option.some.inj h
      obtain ⟨rest, hrest⟩ := inUser_iff.mp hs
      rw [hrest]
      exact .ret hrest
    · cases h
  | fire w =>
    simp only at h
    split at h
    · next hs =>
      obtain rfl := Option.some.inj h
      exact stepped_of_calls (.fire hs.1) (fun _ => rfl) rfl
    · cases h
  | enter f w r =>
    simp only at h
    split at h
    · next hs =>
      obtain rfl := Option.some.inj h
      exact stepped_of_runs hA (.enter (by simpa [List.isEmpty_iff] using hs)) rfl
    · cases h
  | queue f =>
    obtain rfl := Option.some.inj h
    exact .queue
  | offCall c =>
    obtain rfl := Option.some.inj h
    exact stepped_of_calls .offCall (by simp) rfl
  | begin t c =>
    simp only at h
    split at h
    · next hs =>
      obtain rfl := Option.some.inj h
      exact .begin hs
    · cases h
  | micro t =>
    simp only at h
    split at h
    · cases h
    · next m ms hs =>
      obtain rfl := Option.some.inj h
      cases m with
      | setState fn st => exact .write hs
      | runInLoop f => exact .defer hs (Or.inl rfl)
      | queueInLoop f => exact .defer hs (Or.inr rfl)

end Conn

end SimpleNet
