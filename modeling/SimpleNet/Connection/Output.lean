import SimpleNet.Connection.Close
import SimpleNet.Connection.Poller
import SimpleNet.Connection.Shutdown

/-!
# The output buffer and the interest in writing

What `sendInLoop` and `handleWrite` do to the output buffer, case by case (`Sends`, `Drains`).

`write_interest`: from the start of a connection to its first `handleClose` or
`connectDestroyed` the channel asks for writing exactly while the output buffer is not empty,
and then the poller waits for `POLLOUT` on its fd.  Pausing the reading shares the mask and the
registration with it, and may take the mask to zero and back.
-/

namespace SimpleNet

namespace Conn

variable {ι β : Type} [DecidableEq ι] [Fifo β UInt8]

/-! ### What the two functions do -/

/-- What a user has set, and `state_`. -/
def settings (s : Conn ι β) : StateE × Nat × Bool × Bool :=
  (s.state, s.highWaterMark, s.highWaterMarkCallback, s.writeCompleteCallback)

/-- The high-water callback that buffering `rest` queues. -/
def marked (s : Conn ι β) (rest : List UInt8) : List Effect :=
  if Fifo.readable s.outputBuffer + rest.length ≥ s.highWaterMark ∧ s.highWaterMarkCallback = true
  then [.queued (.highWaterMark (Fifo.readable s.outputBuffer + rest.length))] else []

/-- `rest` goes to the end of the buffer. -/
structure Buffers (s : Conn ι β) (rest : List UInt8) (t : Conn ι β) : Prop where
  peek : Fifo.peek t.outputBuffer = Fifo.peek s.outputBuffer ++ rest
  writing : t.isWriting = true
  trace : t.trace = s.trace ++ s.marked rest
  settings : t.settings = s.settings

theorem bufferRest_buffers {s t : Conn ι β} (hA : s.toReactor.Agree) {rest : List UInt8}
    (h : s.bufferRest rest = .ok t) : Buffers s rest t := by
  suffices t.trace = s.trace ++ s.marked rest ∧ t.settings = s.settings from
    ⟨(bufferRest_stream h).1, (bufferRest_does hA h).1, this.1, this.2⟩
  unfold bufferRest at h
  simp only at h
  generalize hu : (if Fifo.readable s.outputBuffer + rest.length ≥ s.highWaterMark ∧
    s.highWaterMarkCallback = true then
      s.queueInLoop (.highWaterMark (Fifo.readable s.outputBuffer + rest.length)) else s) = u at h
  have hsu : u.trace = s.trace ++ s.marked rest ∧ u.settings = s.settings := by
    rw [← hu, marked]
    split
    · exact ⟨rfl, rfl⟩
    · exact ⟨(List.append_nil _).symm, rfl⟩
  split at h
  · exact Except.ok.inj h ▸ hsu
  · obtain ⟨r, -, rfl⟩ := onChannel_ok h
    exact hsu

/-- `sendInLoop` may write at once. -/
def Direct (s : Conn ι β) : Prop := s.isWriting = false ∧ Fifo.readable s.outputBuffer = 0

instance (s : Conn ι β) : Decidable s.Direct := inferInstanceAs (Decidable (_ ∧ _))

/-- `writeCompleteCallback_` is queued, if it is set. -/
def completed (s : Conn ι β) : Conn ι β :=
  if s.writeCompleteCallback then s.queueInLoop .writeComplete else s

omit [DecidableEq ι] [Fifo β UInt8] in
@[simp] theorem completed_outputBuffer (s : Conn ι β) :
    s.completed.outputBuffer = s.outputBuffer := by
  unfold completed
  split <;> rfl

omit [DecidableEq ι] [Fifo β UInt8] in
theorem completed_trace (s : Conn ι β) : s.completed.trace =
    s.trace ++ if s.writeCompleteCallback then [.queued .writeComplete] else [] := by
  unfold completed
  split
  · rfl
  · exact (List.append_nil _).symm

/-- What `sendInLoop` does on a connection that is not disconnected. -/
inductive Sends (s : Conn ι β) (m : Message) : WriteResult → Conn ι β → Prop
  /-- the direct write takes all -/
  | all {n} (hd : s.Direct) (hn : m.bytes.length ≤ n) : Sends s m (.wrote n)
      ((s.emit (.sendInLoop m s.state (some (.wrote n)))).emit (.write m.bytes)).completed
  /-- it takes a part -/
  | part {n t} (hd : s.Direct) (hn : n < m.bytes.length)
      (ht : Buffers ((s.emit (.sendInLoop m s.state (some (.wrote n)))).emit
        (.write (m.bytes.take n))) (m.bytes.drop n) t) : Sends s m (.wrote n) t
  /-- it fails, and the message is buffered -/
  | soft {errno t} (hd : s.Direct) (he : faultError errno = false) (hm : m.bytes ≠ [])
      (ht : Buffers (s.emit (.sendInLoop m s.state (some (.error errno)))) m.bytes t) :
      Sends s m (.error errno) t
  /-- it fails, and the message is dropped -/
  | fault {errno} (hd : s.Direct) (he : faultError errno = true ∨ m.bytes = []) :
      Sends s m (.error errno) (s.emit (.sendInLoop m s.state (some (.error errno))))
  /-- the message goes behind what is in the buffer -/
  | behind {w t} (hd : ¬ s.Direct) (hm : m.bytes ≠ [])
      (ht : Buffers (s.emit (.sendInLoop m s.state none)) m.bytes t) : Sends s m w t
  | empty {w} (hd : ¬ s.Direct) (hm : m.bytes = []) :
      Sends s m w (s.emit (.sendInLoop m s.state none))

theorem sendInLoop_sends {s t : Conn ι β} (hA : s.toReactor.Agree) (hs : s.state ≠ .kDisconnected)
    {m : Message} {w : WriteResult} (h : s.sendInLoop m w = .ok t) : Sends s m w t := by
  rw [sendInLoop, if_neg hs] at h
  by_cases hd : s.Direct
  · rw [if_pos (show s.isWriting = false ∧ _ from hd)] at h
    cases w with
    | wrote n =>
      simp only at h
      by_cases hn : m.bytes.length ≤ n
      · rw [if_pos (by rw [List.length_drop]; omega), List.take_of_length_le hn] at h
        exact Except.ok.inj h ▸ .all hd hn
      · rw [if_neg (by rw [List.length_drop]; omega)] at h
        exact .part hd (Nat.not_le.mp hn) (bufferRest_buffers (s := (s.emit _).emit _) hA h)
    | error errno =>
      simp only at h
      by_cases he : faultError errno = false ∧ 0 < m.bytes.length
      · rw [if_pos he] at h
        exact .soft hd he.1 (List.length_pos_iff.mp he.2) (bufferRest_buffers (s := s.emit _) hA h)
      · rw [if_neg he] at h
        obtain rfl := Except.ok.inj h
        refine .fault hd ?_
        by_cases hf : faultError errno = true
        · exact Or.inl hf
        · right
          by_contra hm
          exact he ⟨(Bool.not_eq_true _).mp hf, List.length_pos_iff.mpr hm⟩
  · rw [if_neg (show ¬ (s.isWriting = false ∧ _) from hd)] at h
    simp only at h
    by_cases hm : m.bytes = []
    · rw [if_neg (by simp [hm])] at h
      exact Except.ok.inj h ▸ .empty hd hm
    · rw [if_pos (List.length_pos_iff.mpr hm)] at h
      exact .behind hd hm (bufferRest_buffers (s := s.emit _) hA h)

/-- The end of `handleWrite`, when the buffer is drained. -/
def finished (s : Conn ι β) : List Effect :=
  (if s.writeCompleteCallback then [.queued .writeComplete] else []) ++
    if s.state = .kDisconnecting then [.shutdownWrite] else []

/-- What `handleWrite` does. -/
inductive Drains (s : Conn ι β) : WriteResult → Conn ι β → Prop
  /-- nothing is written -/
  | idle {w} : Drains s w s
  /-- a part of the buffer is written -/
  | part {k} (hw : s.isWriting = true) (hk : 0 < k) (hn : k < Fifo.readable s.outputBuffer) :
      Drains s (.wrote k) { s.emit (.write ((Fifo.peek s.outputBuffer).take k)) with
        outputBuffer := Fifo.retrieve s.outputBuffer k }
  /-- all of it is -/
  | all {k t} (hpos : 0 < Fifo.readable s.outputBuffer) (hk : Fifo.readable s.outputBuffer ≤ k)
      (hw : t.isWriting = false) (hb : Fifo.readable t.outputBuffer = 0)
      (ht : t.trace = s.trace ++ (.write (Fifo.peek s.outputBuffer) :: s.finished))
      (hs : t.settings = s.settings) : Drains s (.wrote k) t

omit [DecidableEq ι] [Fifo β UInt8] in
/-- The end of `handleWrite` on a channel that has stopped writing. -/
theorem finished_spec {s t : Conn ι β} (hw : s.isWriting = false)
    (h : (let x := if s.writeCompleteCallback then s.queueInLoop .writeComplete else s
      if x.state = .kDisconnecting then x.shutdownInLoop else x) = t) :
    t.isWriting = false ∧ t.outputBuffer = s.outputBuffer ∧ t.trace = s.trace ++ s.finished ∧
      t.settings = s.settings := by
  have hx : ∃ x es, x = (if s.writeCompleteCallback then s.queueInLoop .writeComplete else s) ∧
      es = (if s.writeCompleteCallback then [Effect.queued .writeComplete] else []) ∧
      x.isWriting = false ∧ x.outputBuffer = s.outputBuffer ∧ x.settings = s.settings ∧
      x.trace = s.trace ++ es := by
    split
    · exact ⟨_, _, rfl, rfl, hw, rfl, rfl, rfl⟩
    · exact ⟨s, [], rfl, rfl, hw, rfl, rfl, (List.append_nil _).symm⟩
  obtain ⟨x, es, hx, hes, hxw, hxb, hxset, hxt⟩ := hx
  have hxs : x.state = s.state := congrArg Prod.fst hxset
  simp only [← hx] at h
  rw [finished, ← hes]
  by_cases hst : s.state = .kDisconnecting
  · rw [if_pos (hxs.trans hst), shutdownInLoop, hxw] at h
    subst h
    rw [if_pos hst]
    exact ⟨hxw, hxb, by rw [← List.append_assoc, ← hxt]; rfl, hxset⟩
  · rw [if_neg fun hx => hst (hxs.symm.trans hx)] at h
    subst h
    rw [if_neg hst, List.append_nil]
    exact ⟨hxw, hxb, hxt, hxset⟩

theorem handleWrite_drains {s t : Conn ι β} (hA : s.toReactor.Agree) {w : WriteResult}
    (h : s.handleWrite w = .ok t) : Drains s w t := by
  unfold handleWrite at h
  split at h
  · next hwr =>
    cases w with
    | error errno => exact Except.ok.inj h ▸ .idle
    | wrote k =>
      simp only at h
      split at h
      · next hpos =>
        split at h
        · next hempty =>
          have hall : Fifo.readable s.outputBuffer ≤ k := by
            have hle : min k (Fifo.readable s.outputBuffer) ≤ Fifo.readable s.outputBuffer :=
              Nat.min_le_right _ _
            have hr : Fifo.readable (Fifo.retrieve s.outputBuffer
              (min k (Fifo.readable s.outputBuffer))) = 0 := hempty
            rw [Fifo.readable_retrieve hle] at hr
            omega
          rw [Nat.min_eq_right hall] at h hpos hempty
          rw [onChannel_eq (by exact hA) (by simp)] at h
          have htake : (Fifo.peek s.outputBuffer).take (Fifo.readable s.outputBuffer) =
              Fifo.peek s.outputBuffer := List.take_of_length_le (Nat.le_of_eq (Fifo.readable_eq _).symm)
          rw [htake] at h
          have hvw := isWriting_setMask { s with
              trace := s.trace ++ [Effect.write (Fifo.peek s.outputBuffer)]
              outputBuffer := Fifo.retrieve s.outputBuffer (Fifo.readable s.outputBuffer) }
            (Reactor.Op.mask .disableWriting s.ch.events)
          rw [show (Reactor.Op.mask .disableWriting s.ch.events).has kWriteEvent = false by
            simp [Reactor.Op.mask, Mask.has]] at hvw
          obtain ⟨htw, htb, htt, hts⟩ := finished_spec hvw (Except.ok.inj h)
          refine .all hpos hall htw (by rw [htb]; exact hempty) ?_ hts
          rw [htt, List.append_assoc]
          rfl
        · next hempty =>
          obtain rfl := Except.ok.inj h
          have hlt : k < Fifo.readable s.outputBuffer := by
            by_contra hk
            refine hempty ?_
            show Fifo.readable (Fifo.retrieve s.outputBuffer _) = 0
            rw [Fifo.readable_retrieve (Nat.min_le_right _ _)]
            omega
          rw [Nat.min_eq_left (Nat.le_of_lt hlt)] at hpos ⊢
          exact .part hwr hpos hlt
      · exact Except.ok.inj h ▸ .idle
  · exact Except.ok.inj h ▸ .idle

/-! ### The interest in writing -/

/-- The channel asks for writing exactly while there is output. -/
def Matched (s : Conn ι β) : Prop := s.isWriting = true ↔ 0 < Fifo.readable s.outputBuffer

omit [DecidableEq ι] in
theorem Matched.of_eq {s t : Conn ι β} (h : Matched s) (hw : t.isWriting = s.isWriting)
    (hb : t.outputBuffer = s.outputBuffer) : Matched t := by
  unfold Matched
  rw [hw, hb]
  exact h

omit [DecidableEq ι] in
theorem Buffers.matched {s t : Conn ι β} {rest : List UInt8} (h : Buffers s rest t)
    (hr : rest ≠ []) : Matched t := by
  refine ⟨fun _ => ?_, fun _ => h.writing⟩
  rw [Fifo.readable_eq, h.peek, List.length_append]
  exact Nat.add_pos_right _ (List.length_pos_iff.mpr hr)

omit [DecidableEq ι] in
theorem Sends.matched {s t : Conn ι β} {m : Message} {w : WriteResult} (h : Sends s m w t)
    (hs : Matched s) : Matched t := by
  cases h with
  | all hd hn =>
    refine hs.of_eq ?_ (completed_outputBuffer _)
    unfold completed
    split <;> rfl
  | part hd hn ht =>
    refine ht.matched ?_
    intro hnil
    have := congrArg List.length hnil
    rw [List.length_drop, List.length_nil] at this
    omega
  | soft hd he hm ht => exact ht.matched hm
  | fault hd he => exact hs.of_eq rfl rfl
  | behind hd hm ht => exact ht.matched hm
  | empty hd hm => exact hs.of_eq rfl rfl

omit [DecidableEq ι] in
theorem Drains.matched {s t : Conn ι β} {w : WriteResult} (h : Drains s w t) (hs : Matched s) :
    Matched t := by
  cases h with
  | idle => exact hs
  | @part k hw hk hn =>
    refine ⟨fun _ => ?_, fun _ => hw⟩
    show 0 < Fifo.readable (Fifo.retrieve s.outputBuffer k)
    rw [Fifo.readable_retrieve (Nat.le_of_lt hn)]
    omega
  | all hpos hk hw hb ht hs =>
    unfold Matched
    rw [hw, hb]
    simp

/-- A functor other than `handleClose` and `connectDestroyed`. -/
theorem matched_runFunctor {s t : Conn ι β} (hA : s.toReactor.Agree) {w : WriteResult}
    {r : ReadResult} {f : Functor} (hclose : s.state.Live → f.closes r = false)
    (hf : f ≠ .connectDestroyed) (h : s.runFunctor w r f = .ok t) (hs : Matched s) : Matched t := by
  -- a functor that calls `handleClose` does not get past its test
  have hnot : ∀ {g : Functor}, f = g → g.closes r = true → s.handleClose ≠ .ok t := by
    rintro _ rfl hg hc
    have hl : ¬ s.state.Live := fun hl => by simp [hclose hl] at hg
    rw [handleClose, Assertion.check_of_not (p := _ ∨ _) hl] at hc
    cases hc
  cases f with
  | sendInLoop m =>
    by_cases hst : s.state = .kDisconnected
    · have ht : s.sendInLoop m w = .ok t := h
      rw [sendInLoop, if_pos hst] at ht
      exact Except.ok.inj ht ▸ hs.of_eq rfl rfl
    · exact (sendInLoop_sends hA hst h).matched hs
  | handleWrite => exact (handleWrite_drains hA h).matched hs
  | shutdownInLoop =>
    have ht : s.shutdownInLoop = t := Except.ok.inj h
    unfold shutdownInLoop at ht
    split at ht <;> exact ht ▸ hs.of_eq rfl rfl
  | startReadInLoop =>
    obtain ⟨h1, h2, -⟩ := reading_does hA (Or.inl h)
    exact hs.of_eq h1 h2
  | stopReadInLoop =>
    obtain ⟨h1, h2, -⟩ := reading_does hA (Or.inr h)
    exact hs.of_eq h1 h2
  | connectEstablished =>
    by_cases hst : s.state = .kConnecting
    · obtain rfl := Except.ok.inj ((connectEstablished_eq hA hst).symm.trans h)
      refine hs.of_eq ?_ rfl
      have := Flags.set_test_of_disjoint s.ch.events
        (show kReadEvent &&& kWriteEvent = 0#32 by decide)
      simp only [isWriting, ch, Conn.up, Reactor.setMask_self, Channel.isWriting, Mask.has]
      rw [show (s.chan s.channel).events = s.ch.events from rfl, this]
    · simp [runFunctor, connectEstablished, hst, bind, Except.bind] at h
  | connectDestroyed => exact absurd rfl hf
  | handleRead =>
    cases r with
    | error errno => exact Except.ok.inj h ▸ hs
    | data bytes =>
      simp only [runFunctor, handleRead] at h
      split at h
      · exact Except.ok.inj h ▸ hs.of_eq rfl rfl
      · next hb =>
        have hnil : bytes = [] := by
          by_contra hne
          exact hb (List.length_pos_iff.mpr hne)
        exact absurd h (hnot rfl (by rw [hnil]; rfl))
  | forceCloseInLoop =>
    simp only [runFunctor, forceCloseInLoop] at h
    split at h
    · exact absurd h (hnot rfl rfl)
    · exact Except.ok.inj h ▸ hs
  | handleClose => exact absurd h (hnot rfl rfl)
  | addTimerInLoop | writeComplete | highWaterMark | handleError | other =>
    exact Except.ok.inj h ▸ hs.of_eq rfl rfl

/-- A public function that does not come down to a functor leaves the buffer alone. -/
theorem outputBuffer_callNow {s t : Conn ι β} {l : Bool} {w : WriteResult} {c : Call}
    (hc : l = true → c.direct s.state = none) (h : s.callNow l w c = .ok t) :
    t.outputBuffer = s.outputBuffer := by
  cases c with
  | send m =>
    by_cases hs : s.state = .kConnected
    · cases l with
      | true => simp [Call.direct, hs] at hc
      | false =>
        simp only [callNow, Call.body, TcpConnection.send, if_pos hs] at h
        exact Except.ok.inj h ▸ rfl
    · simp only [callNow, Call.body, TcpConnection.send, if_neg hs] at h
      exact Except.ok.inj h ▸ rfl
  | shutdown =>
    cases l with
    | false => exact Except.ok.inj h ▸ rfl
    | true =>
      have ht : (((s.emit (.call .shutdown)).setState .shutdown .kConnected).setState .shutdown
        .kDisconnecting).shutdownInLoop = t := Except.ok.inj h
      unfold shutdownInLoop at ht
      split at ht <;> exact ht ▸ rfl
  | forceClose =>
    simp only [callNow, Call.body, TcpConnection.forceClose] at h
    split at h <;> exact Except.ok.inj h ▸ rfl
  | forceCloseWithDelay =>
    simp only [callNow, Call.body, TcpConnection.forceCloseWithDelay] at h
    split at h
    · cases l <;> exact Except.ok.inj h ▸ rfl
    · exact Except.ok.inj h ▸ rfl
  | startRead =>
    cases l with
    | true => cases hc rfl
    | false => exact Except.ok.inj h ▸ rfl
  | stopRead =>
    cases l with
    | true => cases hc rfl
    | false => exact Except.ok.inj h ▸ rfl

/-- The step runs neither `handleClose` nor `connectDestroyed`. -/
def StaysUp (s : Conn ι β) (a : Act) : Prop :=
  s.closing a = false ∧ s.runsFn a ≠ some .connectDestroyed

instance (s : Conn ι β) (a : Act) : Decidable (s.StaysUp a) := inferInstanceAs (Decidable (_ ∧ _))

theorem matched_stepped {s t : Conn ι β} {a : Act} (hb : Base s) (hup : s.StaysUp a)
    (hst : Stepped s a t) (h : Matched s) : Matched t := by
  have hquiet : t.outputBuffer = s.outputBuffer → t.ch.events = s.ch.events → Matched t := by
    intro hbuf he
    refine h.of_eq ?_ hbuf
    rw [isWriting, isWriting, Channel.isWriting, Channel.isWriting, he]
  cases hst with
  | @ran _ w r f u _ hu hr hran =>
    have hstate : u.state = s.state := by cases hu <;> rfl
    have hus : Matched u := by cases hu <;> exact h
    refine matched_runFunctor (hu.toReactor ▸ hb.agree) ?_ ?_ hr hus
    · intro hl
      have hc := hup.1
      simpa [closing, hu.runs_eq, hstate ▸ hl] using hc
    · rintro rfl
      exact hup.2 (by rw [runsFn, hu.runs_eq]; rfl)
  | @called _ l w c u _ hu hr ht =>
    have hc : l = true → c.direct u.state = none := by
      cases hu with
      | call hs hc => exact fun _ => hc
      | fire hs => exact fun _ => rfl
      | offCall => exact fun hl => (by cases hl)
    refine hquiet ?_ (by rw [ch, ch, ht.spec.1, ht.spec.2.2, hu.spec.1, hu.spec.2.2])
    rw [outputBuffer_callNow hc hr]
    cases hu <;> rfl
  | poll hs hw hf => exact hquiet rfl ((Reactor.fillActiveChannels_same hf).1.events _)
  | refused | stuck | skip | eventsDone | ret | doPendingFunctors | queue | begin | write | defer
  | closeCallback => exact hquiet rfl rfl
  | removed hs => exact hquiet rfl (by simp [ch])
  | @handle w r c rest hs => exact hquiet rfl ((sameViews_enterChannel s c).events _)
  | handled hs => exact hquiet rfl (by simp [ch, Reactor.setChan])

/-- The interest in writing matches the output. -/
structure WriteInterest (s : Conn ι β) : Prop where
  writing : s.isWriting = true ↔ 0 < Fifo.readable s.outputBuffer
  /-- the poller waits for `POLLOUT` -/
  polled : 0 < Fifo.readable s.outputBuffer →
    ∃ m, s.registered = some (m, s.channel) ∧ m.has POLLOUT = true

omit [DecidableEq ι] in
theorem writeInterest_of_matched {s : Conn ι β} (hA : s.toReactor.Agree)
    (hm : s.toReactor.Masked s.channel) (h : Matched s) : WriteInterest s where
  writing := h
  polled hpos := by
    have hw : s.ch.events.has POLLOUT = true := h.mpr hpos
    have hadd : s.ch.index = .kAdded := by
      by_contra hne
      rw [show s.ch.events = kNoneEvent from hm hne] at hw
      cases hw
    exact ⟨s.ch.events, (hA.epoll_eq s.channel).trans (if_pos hadd), hw⟩

/-- **The interest in writing matches the output** until the connection is closed. -/
theorem write_interest {r : Reactor ι} {c : ι} (hr : Fresh r c) (mark : Nat) (hw wc : Bool)
    {as : List Act} {t : Conn ι β}
    (hrun : Steps.run (Steps.guarded StaysUp step) (init r c mark hw wc) as = some t) :
    WriteInterest t := by
  have h : Base t ∧ Matched t := by
    refine Steps.run_invariant (I := fun s => Base s ∧ Matched s) ?_ ?_ hrun
    · rintro s a u ⟨hb, hm⟩ hs
      obtain ⟨hup, hs⟩ := Steps.guarded_eq_some.mp hs
      obtain ⟨-, hst⟩ := step_stepped hb.agree hs
      exact ⟨base_stepped hb hst, matched_stepped hb hup hst hm⟩
    · refine ⟨base_init hr mark hw wc, ?_⟩
      obtain ⟨fd, hfd⟩ := hr.chan
      have hnone : (init r c mark hw wc : Conn ι β).isWriting = false :=
        isWriting_of_none (by simp [init, ch, hfd, Channel.new])
      have hempty : Fifo.readable (init r c mark hw wc : Conn ι β).outputBuffer = 0 :=
        Fifo.readable_eq_zero.mpr Fifo.peek_empty
      rw [Matched, hnone, hempty]
      simp
  exact writeInterest_of_matched h.1.agree h.1.masked h.2

/-- The reading is paused, a write is short, and the reading goes on. -/
def pausedWrite : List Act :=
  [.enter .connectEstablished (.wrote 0) (.data []), .call .stopRead (.wrote 0),
    .call (.send ⟨0, [1, 2, 3]⟩) (.wrote 1), .call .startRead (.wrote 0),
    .call .stopRead (.wrote 0)]

theorem write_interest_paused : ∃ t, Steps.run (Steps.guarded StaysUp step) alone pausedWrite = some t ∧
    Fifo.readable t.outputBuffer = 2 ∧ WriteInterest t := by
  have hobs : (Steps.run (Steps.guarded StaysUp step) alone pausedWrite).any
      (fun t => decide (Fifo.readable t.outputBuffer = 2)) = true := by decide
  obtain ⟨t, ht, hobs⟩ := (Option.any_eq_true _ _).mp hobs
  exact ⟨t, ht, of_decide_eq_true hobs, write_interest fresh_alone 64 false true ht⟩

end Conn

end SimpleNet
