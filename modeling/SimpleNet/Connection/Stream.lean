import SimpleNet.Connection.Life

/-!
# The output stream

`stream_intact`: in every run, whatever the writes return, the bytes written to the socket
so far, followed by the content of `outputBuffer_`, are the payloads of the calls of
`sendInLoop` that were not refused, in call order.

Only `sendInLoop` and `handleWrite` touch the stream; every other piece of a step is
`Silent`.
-/

namespace SimpleNet

/-- A call of `sendInLoop` is refused when it finds the connection disconnected, or when
its own direct write fails with `EPIPE` or `ECONNRESET`. -/
def Refuses (st : StateE) (direct : Option WriteResult) : Prop :=
  st = .kDisconnected ∨ direct = some (.error EPIPE) ∨ direct = some (.error ECONNRESET)

instance (st : StateE) (direct : Option WriteResult) : Decidable (Refuses st direct) :=
  inferInstanceAs (Decidable (_ ∨ _ ∨ _))

namespace Effect

/-- The bytes that an effect sends. -/
def sent : Effect → List UInt8
  | .write bytes => bytes
  | _ => []

/-- The bytes that an effect accepts. -/
def accepted : Effect → List UInt8
  | .sendInLoop m st direct => if Refuses st direct then [] else m.bytes
  | _ => []

/-- The effects of the output stream. -/
def isStream : Effect → Bool
  | .sendInLoop .. | .write _ => true
  | _ => false

theorem sent_of_not_isStream {e : Effect} (h : e.isStream = false) : e.sent = [] := by
  cases e <;> first | rfl | cases h

theorem accepted_of_not_isStream {e : Effect} (h : e.isStream = false) : e.accepted = [] := by
  cases e <;> first | rfl | cases h

end Effect

/-- The bytes sent in a trace, in order. -/
def sent (es : List Effect) : List UInt8 := es.flatMap Effect.sent

/-- The payloads accepted in a trace, in call order. -/
def accepted (es : List Effect) : List UInt8 := es.flatMap Effect.accepted

@[simp] theorem sent_append (es fs : List Effect) : sent (es ++ fs) = sent es ++ sent fs :=
  List.flatMap_append

@[simp] theorem accepted_append (es fs : List Effect) :
    accepted (es ++ fs) = accepted es ++ accepted fs :=
  List.flatMap_append

theorem sent_of_not_isStream {es : List Effect} (h : ∀ e ∈ es, e.isStream = false) :
    sent es = [] :=
  List.flatMap_eq_nil_iff.mpr fun e he => Effect.sent_of_not_isStream (h e he)

theorem accepted_of_not_isStream {es : List Effect} (h : ∀ e ∈ es, e.isStream = false) :
    accepted es = [] :=
  List.flatMap_eq_nil_iff.mpr fun e he => Effect.accepted_of_not_isStream (h e he)

namespace Conn

variable {ι β : Type} [Fifo β UInt8]

/-- No byte is lost, duplicated or reordered. -/
def Intact (s : Conn ι β) : Prop :=
  sent s.trace ++ Fifo.peek s.outputBuffer = accepted s.trace

omit [Fifo β UInt8] in
/-- The stream is not touched. -/
structure Silent (s t : Conn ι β) : Prop where
  outputBuffer : t.outputBuffer = s.outputBuffer
  trace : ∃ es, t.trace = s.trace ++ es ∧ ∀ e ∈ es, e.isStream = false

theorem Silent.intact {s t : Conn ι β} (h : Silent s t) (hs : Intact s) : Intact t := by
  obtain ⟨es, he, hq⟩ := h.trace
  unfold Intact
  rw [h.outputBuffer, he, sent_append, accepted_append, sent_of_not_isStream hq,
    accepted_of_not_isStream hq, List.append_nil, List.append_nil]
  exact hs

omit [Fifo β UInt8] in
theorem Silent.of_eq {s t : Conn ι β} (hb : t.outputBuffer = s.outputBuffer)
    (ht : t.trace = s.trace) : Silent s t :=
  ⟨hb, [], by simp [ht]⟩

omit [Fifo β UInt8] in
theorem Silent.trans {s t u : Conn ι β} (h : Silent s t) (g : Silent t u) : Silent s u := by
  obtain ⟨es, he, hq⟩ := h.trace
  obtain ⟨fs, hf, hr⟩ := g.trace
  refine ⟨g.outputBuffer.trans h.outputBuffer, es ++ fs, by rw [hf, he, List.append_assoc], ?_⟩
  intro e hm
  rcases List.mem_append.mp hm with hm | hm
  · exact hq e hm
  · exact hr e hm

omit [Fifo β UInt8] in
theorem silent_emit (s : Conn ι β) {e : Effect} (he : e.isStream = false) : Silent s (s.emit e) :=
  ⟨rfl, [e], rfl, by simpa using he⟩

omit [Fifo β UInt8] in
theorem silent_queueInLoop (s : Conn ι β) (f : Functor) : Silent s (s.queueInLoop f) :=
  ⟨rfl, [.queued f], rfl, by simp [Effect.isStream]⟩

variable [DecidableEq ι]

omit [Fifo β UInt8] in
theorem silent_onChannel {s t : Conn ι β} {op : Reactor.Op} (h : s.onChannel op = .ok t) :
    Silent s t := by
  obtain ⟨r, -, rfl⟩ := onChannel_ok h
  exact .of_eq rfl rfl

omit [DecidableEq ι] [Fifo β UInt8] in
theorem silent_shutdownInLoop (s : Conn ι β) : Silent s s.shutdownInLoop := by
  unfold shutdownInLoop
  split
  · exact .of_eq rfl rfl
  · exact silent_emit s rfl

omit [DecidableEq ι] [Fifo β UInt8] in
/-- The end of `handleWrite`, when the buffer is drained. -/
theorem silent_drained (s : Conn ι β) :
    let x := if s.writeCompleteCallback then s.queueInLoop .writeComplete else s
    Silent s (if x.state = .kDisconnecting then x.shutdownInLoop else x) := by
  intro x
  have hx : Silent s x := by
    unfold x
    split
    · exact silent_queueInLoop s _
    · exact .of_eq rfl rfl
  split
  · exact hx.trans (silent_shutdownInLoop x)
  · exact hx

/-! ### The two functions of the stream -/

/-- What was not written goes to the end of the buffer. -/
theorem bufferRest_stream {s t : Conn ι β} {rest : List UInt8} (h : s.bufferRest rest = .ok t) :
    Fifo.peek t.outputBuffer = Fifo.peek s.outputBuffer ++ rest ∧
      ∃ es, t.trace = s.trace ++ es ∧ ∀ e ∈ es, e.isStream = false := by
  unfold bufferRest at h
  simp only at h
  generalize hu : (if Fifo.readable s.outputBuffer + rest.length ≥ s.highWaterMark ∧
    s.highWaterMarkCallback = true then
      s.queueInLoop (.highWaterMark (Fifo.readable s.outputBuffer + rest.length)) else s) = u at h
  have hsu : Silent s u := by
    rw [← hu]
    split
    · exact silent_queueInLoop s _
    · exact .of_eq rfl rfl
  have hut : Silent { u with outputBuffer := Fifo.append u.outputBuffer rest } t := by
    split at h
    · exact Except.ok.inj h ▸ .of_eq rfl rfl
    · exact silent_onChannel h
  obtain ⟨es, he, hq⟩ := hsu.trace
  obtain ⟨fs, hf, hr⟩ := hut.trace
  refine ⟨?_, es ++ fs, by rw [hf, ← List.append_assoc, ← he], ?_⟩
  · rw [hut.outputBuffer, ← hsu.outputBuffer]
    exact Fifo.peek_append _ _
  · intro e hm
    rcases List.mem_append.mp hm with hm | hm
    · exact hq e hm
    · exact hr e hm

/-- Buffering `rest` after the effects `es` keeps the stream intact if these account for it. -/
theorem intact_bufferRest {s t : Conn ι β} (es : List Effect) {rest : List UInt8} (hs : Intact s)
    (hes : sent es ++ rest = accepted es) (hb : sent es ≠ [] → Fifo.peek s.outputBuffer = [])
    (h : ({ s with trace := s.trace ++ es }.bufferRest rest) = .ok t) : Intact t := by
  obtain ⟨hpeek, fs, hf, hq⟩ := bufferRest_stream h
  unfold Intact at hs ⊢
  rw [hpeek, hf]
  simp only [sent_append, accepted_append, sent_of_not_isStream hq, accepted_of_not_isStream hq,
    List.append_nil]
  rw [← hs, ← hes]
  by_cases hnil : sent es = []
  · simp [hnil]
  · simp [hb hnil]

omit [Fifo β UInt8] in
/-- A direct write that fails refuses the message when it is a fault. -/
theorem refuses_error {st : StateE} (hst : st ≠ .kDisconnected) (errno : Errno) :
    Refuses st (some (.error errno)) ↔ faultError errno = true := by
  have hwould : EPIPE ≠ EWOULDBLOCK ∧ ECONNRESET ≠ EWOULDBLOCK := by decide
  simp only [Refuses, hst, false_or, Option.some.injEq, WriteResult.error.injEq, faultError,
    Bool.and_eq_true, Bool.or_eq_true, beq_iff_eq, bne_iff_ne]
  constructor
  · rintro (rfl | rfl)
    · exact ⟨hwould.1, Or.inl rfl⟩
    · exact ⟨hwould.2, Or.inr rfl⟩
  · exact And.right

omit [DecidableEq ι] in
/-- Effects that send what they accept, past an empty buffer. -/
theorem intact_emitted {s t : Conn ι β} (es : List Effect) (hs : Intact s)
    (hpeek : sent es ≠ [] → Fifo.peek s.outputBuffer = []) (hes : sent es = accepted es)
    (hb : t.outputBuffer = s.outputBuffer) (ht : t.trace = s.trace ++ es) : Intact t := by
  unfold Intact at hs ⊢
  rw [hb, ht, sent_append, accepted_append, ← hs, ← hes]
  by_cases hnil : sent es = []
  · simp [hnil]
  · simp [hpeek hnil]

/-- The direct write takes `n` bytes. -/
theorem intact_wrote {s t : Conn ι β} {m : Message} {n : Nat} (hs : Intact s)
    (hst : s.state ≠ .kDisconnected) (hempty : s.isWriting = false ∧ Fifo.readable s.outputBuffer = 0)
    (h : s.sendInLoop m (.wrote n) = .ok t) : Intact t := by
  have hpeek : Fifo.peek s.outputBuffer = [] := Fifo.readable_eq_zero.mp hempty.2
  have hes : sent [.sendInLoop m s.state (some (.wrote n)), .write (m.bytes.take n)] ++
      m.bytes.drop n = accepted [.sendInLoop m s.state (some (.wrote n)), .write (m.bytes.take n)] := by
    simp [sent, accepted, Effect.sent, Effect.accepted, Refuses, hst]
  simp only [sendInLoop, if_neg hst, if_pos hempty] at h
  split at h
  · next hlen =>
    obtain rfl := Except.ok.inj h
    rw [List.length_eq_zero_iff.mp hlen, List.append_nil] at hes
    have hmid : Intact ((s.emit (.sendInLoop m s.state (some (.wrote n)))).emit
        (.write (m.bytes.take n))) :=
      intact_emitted _ hs (fun _ => hpeek) hes rfl (List.append_assoc _ _ _)
    split
    · exact (silent_queueInLoop _ _).intact hmid
    · exact hmid
  · exact intact_bufferRest _ hs hes (fun _ => hpeek) (by simpa [emit, List.append_assoc] using h)

/-- The direct write fails; the message is refused or buffered. -/
theorem intact_error {s t : Conn ι β} {m : Message} {errno : Errno} (hs : Intact s)
    (hst : s.state ≠ .kDisconnected) (hempty : s.isWriting = false ∧ Fifo.readable s.outputBuffer = 0)
    (h : s.sendInLoop m (.error errno) = .ok t) : Intact t := by
  have hrefuses := refuses_error hst errno
  simp only [sendInLoop, if_neg hst, if_pos hempty] at h
  split at h
  · next hf =>
    have hno : ¬ Refuses s.state (some (.error errno)) := by simp [hrefuses, hf.1]
    refine intact_bufferRest [.sendInLoop m s.state (some (.error errno))] hs ?_
      (fun hne => absurd rfl hne) h
    simp [sent, accepted, Effect.sent, Effect.accepted, hno]
  · next hf =>
    obtain rfl := Except.ok.inj h
    have hacc : accepted [.sendInLoop m s.state (some (.error errno))] = [] := by
      simp only [accepted, Effect.accepted, List.flatMap_cons, List.flatMap_nil, List.append_nil]
      split
      · rfl
      · next hno =>
        by_contra hne
        exact hf ⟨by simpa [hrefuses] using hno, List.length_pos_iff.mpr hne⟩
    exact intact_emitted [.sendInLoop m s.state (some (.error errno))] hs (fun hne => absurd rfl hne)
      hacc.symm rfl rfl

theorem intact_sendInLoop {s t : Conn ι β} {m : Message} {w : WriteResult} (hs : Intact s)
    (h : s.sendInLoop m w = .ok t) : Intact t := by
  by_cases hst : s.state = .kDisconnected
  · rw [sendInLoop, if_pos hst] at h
    obtain rfl := Except.ok.inj h
    refine intact_emitted [.sendInLoop m s.state none] hs (fun hne => absurd rfl hne) ?_ rfl rfl
    simp [sent, accepted, Effect.sent, Effect.accepted, Refuses, hst]
  by_cases hempty : s.isWriting = false ∧ Fifo.readable s.outputBuffer = 0
  · cases w with
    | wrote n => exact intact_wrote hs hst hempty h
    | error errno => exact intact_error hs hst hempty h
  -- no direct write
  have hacc : accepted [.sendInLoop m s.state none] = m.bytes := by
    simp [accepted, Effect.accepted, Refuses, hst]
  simp only [sendInLoop, if_neg hst, if_neg hempty] at h
  split at h
  · exact intact_bufferRest [.sendInLoop m s.state none] hs hacc.symm (fun hne => absurd rfl hne) h
  · next hlen =>
    obtain rfl := Except.ok.inj h
    have hnil : m.bytes = [] := by
      by_contra hne
      exact hlen (List.length_pos_iff.mpr hne)
    exact intact_emitted [.sendInLoop m s.state none] hs (fun hne => absurd rfl hne)
      (hacc.trans hnil).symm rfl rfl

theorem intact_handleWrite {s t : Conn ι β} {w : WriteResult} (hs : Intact s)
    (h : s.handleWrite w = .ok t) : Intact t := by
  unfold handleWrite at h
  split at h
  · cases w with
    | error errno => exact Except.ok.inj h ▸ hs
    | wrote k =>
      simp only at h
      generalize hn : min k (Fifo.readable s.outputBuffer) = n at h
      have hle : n ≤ Fifo.readable s.outputBuffer := by omega
      split at h
      · have hmid : Intact { s with
            trace := s.trace ++ [.write ((Fifo.peek s.outputBuffer).take n)]
            outputBuffer := Fifo.retrieve s.outputBuffer n } := by
          unfold Intact at hs ⊢
          simp only [sent_append, accepted_append, Fifo.peek_retrieve _ _ hle]
          rw [← hs]
          simp [sent, accepted, Effect.sent, Effect.accepted, List.append_assoc]
        split at h
        · simp only [bind, Except.bind] at h
          split at h
          · cases h
          · next v hv =>
            obtain rfl := Except.ok.inj h
            exact (silent_drained v).intact ((silent_onChannel hv).intact hmid)
        · exact Except.ok.inj h ▸ hmid
      · exact Except.ok.inj h ▸ hs
  · exact Except.ok.inj h ▸ hs

/-! ### Every other piece of a step -/

omit [DecidableEq ι] [Fifo β UInt8] in
theorem silent_setState (s : Conn ι β) (fn : Fn) (st : StateE) : Silent s (s.setState fn st) :=
  ⟨rfl, [_], rfl, by simp [Effect.isStream]⟩

omit [Fifo β UInt8] in
theorem silent_up (s : Conn ι β) : Silent s s.up :=
  ⟨rfl, _, rfl, by simp [Effect.isStream]⟩

omit [Fifo β UInt8] in
theorem silent_down (s : Conn ι β) (fn : Fn) {es : List Effect} (f : Frame ι)
    (hes : ∀ e ∈ es, e.isStream = false) : Silent s (s.down fn es f) := by
  refine ⟨rfl, _, rfl, ?_⟩
  intro e hm
  rcases List.mem_append.mp hm with hm | hm
  · exact hes e hm
  · simp only [List.mem_cons, List.not_mem_nil, or_false] at hm
    rcases hm with rfl | rfl | rfl <;> rfl

omit [Fifo β UInt8] in
theorem silent_handleClose {s t : Conn ι β} (hA : s.toReactor.Agree) (h : s.handleClose = .ok t) :
    Silent s t := by
  by_cases hs : s.state.Live
  · rw [handleClose_eq hA hs] at h
    exact Except.ok.inj h ▸ silent_down s _ _ (by simp [Effect.isStream])
  · rw [handleClose, Assertion.check_of_not (p := _ ∨ _) hs] at h
    cases h

/-- **A functor keeps the stream intact.** -/
theorem intact_runFunctor {s t : Conn ι β} (hA : s.toReactor.Agree) {w : WriteResult}
    {r : ReadResult} {f : Functor} (hs : Intact s) (h : s.runFunctor w r f = .ok t) : Intact t := by
  cases f with
  | sendInLoop m => exact intact_sendInLoop hs h
  | handleWrite => exact intact_handleWrite hs h
  | connectEstablished =>
    by_cases hst : s.state = .kConnecting
    · obtain rfl := Except.ok.inj ((connectEstablished_eq hA hst).symm.trans h)
      exact (silent_up s).intact hs
    · simp [runFunctor, connectEstablished, hst, bind, Except.bind] at h
  | connectDestroyed =>
    by_cases hst : s.state = .kConnected
    · obtain rfl := Except.ok.inj ((connectDestroyed_eq hA hst).symm.trans h)
      exact (silent_down s _ _ (by simp)).intact hs
    · obtain rfl := Except.ok.inj (h.symm.trans (if_neg hst))
      exact hs
  | shutdownInLoop => exact Except.ok.inj h ▸ (silent_shutdownInLoop s).intact hs
  | forceCloseInLoop =>
    simp only [runFunctor, forceCloseInLoop] at h
    split at h
    · exact (silent_handleClose hA h).intact hs
    · exact Except.ok.inj h ▸ hs
  | startReadInLoop =>
    simp only [runFunctor, startReadInLoop,
      onChannel_eq hA (show Reactor.Op.enableReading ≠ .remove by simp)] at h
    split at h <;> exact Except.ok.inj h ▸ hs
  | stopReadInLoop =>
    simp only [runFunctor, stopReadInLoop,
      onChannel_eq hA (show Reactor.Op.disableReading ≠ .remove by simp)] at h
    split at h <;> exact Except.ok.inj h ▸ hs
  | addTimerInLoop => exact Except.ok.inj h ▸ hs
  | writeComplete => exact Except.ok.inj h ▸ hs
  | highWaterMark len => exact Except.ok.inj h ▸ hs
  | handleRead =>
    simp only [runFunctor, handleRead] at h
    cases r with
    | error errno => exact Except.ok.inj h ▸ hs
    | data bytes =>
      simp only at h
      split at h
      · obtain rfl := Except.ok.inj h
        refine Silent.intact (s := s) ⟨rfl, [.messageCallback], rfl, ?_⟩ hs
        simp [Effect.isStream]
      · exact (silent_handleClose hA h).intact hs
  | handleClose => exact (silent_handleClose hA h).intact hs
  | handleError => exact Except.ok.inj h ▸ hs
  | other => exact Except.ok.inj h ▸ hs

theorem intact_runMicros {l : Bool} {w : WriteResult} : ∀ {ms : List Micro} {s t : Conn ι β},
    s.toReactor.Agree → Intact s → runMicros l w ms s = .ok t → Intact t := by
  intro ms
  induction ms with
  | nil => intro s t _ hs h; exact Except.ok.inj h ▸ hs
  | cons m ms ih =>
    intro s t hA hs h
    simp only [runMicros] at h
    cases hm : s.runMicro l w m with
    | error e => rw [hm] at h; cases h
    | ok u =>
      rw [hm] at h
      cases m with
      | setState fn st =>
        obtain rfl := Except.ok.inj hm
        exact ih (s := s.setState fn st) hA ((silent_setState s fn st).intact hs) h
      | queueInLoop f =>
        obtain rfl := Except.ok.inj hm
        exact ih (s := s.queueInLoop f) hA ((silent_queueInLoop s f).intact hs) h
      | runInLoop f =>
        cases l with
        | false =>
          obtain rfl := Except.ok.inj hm
          exact ih (s := s.queueInLoop f) hA ((silent_queueInLoop s f).intact hs) h
        | true =>
          refine ih ?_ (intact_runFunctor hA hs hm) h
          rcases runFunctor_ran hA w (.error 0) f with ⟨v, hv, hran⟩ | ⟨e, he, -⟩
          · obtain rfl := Except.ok.inj (hv.symm.trans hm)
            exact hran.change.agree hA
          · cases he.symm.trans hm

/-- **A step keeps the stream intact.** -/
theorem intact_stepped {s t : Conn ι β} {a : Act} (hb : Base s) (h : Stepped s a t)
    (hs : Intact s) : Intact t := by
  cases h with
  | @ran _ w r f u _ hu hr hran =>
    have hsu : Silent s u := by
      cases hu <;> first | exact .of_eq rfl rfl | exact silent_emit s rfl
    exact intact_runFunctor (hu.toReactor ▸ hb.agree) (hsu.intact hs) hr
  | @called _ l w c u _ hu hr ht =>
    have hsu : Silent s u := by cases hu <;> exact .of_eq rfl rfl
    have hA : u.toReactor.Agree := hu.spec.2.2 ▸ hb.agree
    exact intact_runMicros (s := u.emit (.call c)) hA
      ((hsu.trans (silent_emit u rfl)).intact hs) hr
  | poll | refused | stuck | handle | skip | handled | eventsDone | doPendingFunctors | ret
  | queue => exact hs
  | removed => exact Silent.intact (s := s) ⟨rfl, [.destroyed], rfl, by simp [Effect.isStream]⟩ hs
  | closeCallback =>
    exact Silent.intact (s := s) ⟨rfl, [.closeCallback], rfl, by simp [Effect.isStream]⟩ hs
  | begin | write | defer =>
    exact Silent.intact (s := s) ⟨rfl, [_], rfl, by simp [Effect.isStream]⟩ hs

theorem intact_run {r : Reactor ι} {c : ι} (hr : Fresh r c) (mark : Nat) (hw wc : Bool)
    {as : List Act} {t : Conn ι β} (hrun : Steps.run step (init r c mark hw wc) as = some t) :
    Base t ∧ Intact t := by
  refine Steps.run_invariant (I := fun s => Base s ∧ Intact s) ?_ ?_ hrun
  · rintro s a u ⟨hb, hs⟩ hstep
    obtain ⟨-, hst⟩ := step_stepped hb.agree hstep
    exact ⟨base_stepped hb hst, intact_stepped hb hst hs⟩
  · refine ⟨base_init hr mark hw wc, ?_⟩
    simp [Intact, init, sent, accepted]

/-- **Output stream integrity.**  In every run, what was sent and what is still in
`outputBuffer_` are together the accepted payloads in call order. -/
theorem stream_intact {r : Reactor ι} {c : ι} (hr : Fresh r c) (mark : Nat) (hw wc : Bool)
    {as : List Act} {t : Conn ι β} (hrun : Steps.run step (init r c mark hw wc) as = some t) :
    Intact t :=
  (intact_run hr mark hw wc hrun).2

/-- Two messages, a short write of the first and a short drain. -/
def shortWrites : List Act :=
  [.enter .connectEstablished (.wrote 0) (.data []), .call (.send ⟨0, [1, 2, 3]⟩) (.wrote 1),
    .call (.send ⟨1, [4]⟩) (.wrote 1), .ret, .poll [(5, POLLOUT)]] ++ goes 4 ++
    [.go (.wrote 2) (.data [])]

/-- One byte is left. -/
theorem stream_intact_short : ∃ t, Steps.run step alone shortWrites = some t ∧
    sent t.trace = [1, 2, 3] ∧ Fifo.peek t.outputBuffer = [4] ∧ Intact t := by
  have hobs : (Steps.run step alone shortWrites).any (fun t =>
      decide (sent t.trace = [1, 2, 3] ∧ Fifo.peek t.outputBuffer = [4])) = true := by decide
  obtain ⟨t, ht, hobs⟩ := (Option.any_eq_true _ _).mp hobs
  obtain ⟨h1, h2⟩ := of_decide_eq_true hobs
  exact ⟨t, ht, h1, h2, stream_intact fresh_alone 64 false true ht⟩

end Conn

end SimpleNet
