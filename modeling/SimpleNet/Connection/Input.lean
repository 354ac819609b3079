import SimpleNet.Connection.Output

/-!
# The input of a connection

What a step reads, when it half-closes the socket, and what is left to write on a socket that takes
no more bytes: `piece_stepped`.
-/

namespace SimpleNet

open Function (update)

namespace Conn

variable {ι β : Type}

/-- The outcome of the `readFd` that a step makes. -/
def reads (s : Conn ι β) (a : Act) : Option ReadResult :=
  match s.runs a with
  | some (.handleRead, r) => some r
  | _ => none

end Conn

/-- The bytes that a `readFd` delivers. -/
def ReadResult.bytes : ReadResult → List UInt8
  | .data bytes => bytes
  | .error _ => []

namespace Conn

variable {ι β : Type}

/-- The bytes that a step reads. -/
def input (s : Conn ι β) (a : Act) : List UInt8 := ((s.reads a).map ReadResult.bytes).getD []

theorem input_eq_nil {s : Conn ι β} {a : Act}
    (h : ∀ r, s.runs a = some (.handleRead, r) → r.bytes = []) : s.input a = [] := by
  unfold input reads
  split
  · next r hr => exact h r hr
  · rfl

theorem runs_of_skips {s : Conn ι β} {w : WriteResult} {r : ReadResult} {f : Frame ι}
    {rest : List (Frame ι)} (hs : s.stack = f :: rest) (hf : f.Skips s.ch.revents) :
    s.runs (.go w r) = none := by
  cases f with
  | onClose | onError | onRead | onWrite =>
    have hf : _ = false := hf
    simp [runs, hs, hf]
  | functors b =>
    cases b with
    | nil => simp [runs, hs]
    | cons f b => exact hf.elim
  | _ => exact hf.elim

variable [Fifo β UInt8]

/-- A piece of a step: `input` is read, and the socket is half-closed only when the channel does
not write.  On a socket that takes no more bytes nothing gets into the output buffer. -/
structure Piece (w : WriteResult) (input : List UInt8) (s t : Conn ι β) : Prop where
  input : Fifo.peek t.inputBuffer = Fifo.peek s.inputBuffer ++ input
  trace : ∃ es, t.trace = s.trace ++ es ∧ (.shutdownWrite ∈ es → t.isWriting = false)
  spent : w = .error EPIPE → s.Direct → t.Direct

section

variable {s t u : Conn ι β} {w : WriteResult} {l : List UInt8}

/-- A piece that touches neither buffer and does not half-close. -/
theorem Piece.quiet (es : List Effect) (hi : t.inputBuffer = s.inputBuffer)
    (ho : t.outputBuffer = s.outputBuffer) (hw : t.isWriting = true → s.isWriting = true)
    (ht : t.trace = s.trace ++ es) (hes : .shutdownWrite ∉ es) : Piece w [] s t where
  input := by rw [hi, List.append_nil]
  trace := ⟨es, ht, fun h => absurd h hes⟩
  spent _ hd := by
    refine ⟨(Bool.not_eq_true _).mp fun h => ?_, ho ▸ hd.2⟩
    have hfalse := hd.1
    rw [hw h] at hfalse
    cases hfalse

theorem Piece.refl (s : Conn ι β) : Piece w [] s s :=
  .quiet [] rfl rfl id (List.append_nil _).symm List.not_mem_nil

/-- Effects before a piece, in a state that differs in nothing else that it reads. -/
theorem Piece.after (es : List Effect) (h : Piece w l u t) (hi : u.inputBuffer = s.inputBuffer)
    (ho : u.outputBuffer = s.outputBuffer) (hw : u.isWriting = s.isWriting)
    (ht : u.trace = s.trace ++ es) (hes : .shutdownWrite ∉ es) : Piece w l s t where
  input := hi ▸ h.input
  trace := by
    obtain ⟨fs, hf, hq⟩ := h.trace
    refine ⟨es ++ fs, by rw [hf, ht, List.append_assoc], fun hm => hq ?_⟩
    rcases List.mem_append.mp hm with hm | hm
    · exact absurd hm hes
    · exact hm
  spent he hd := h.spent he ⟨hw ▸ hd.1, ho ▸ hd.2⟩

theorem piece_shutdownInLoop (s : Conn ι β) : Piece w [] s s.shutdownInLoop := by
  unfold shutdownInLoop
  split
  · exact .refl s
  · next hw =>
    refine ⟨(List.append_nil _).symm, ⟨[.shutdownWrite], rfl, fun _ => ?_⟩, fun _ hd => hd⟩
    exact (Bool.not_eq_true _).mp hw

variable [DecidableEq ι]

/-- A channel that is disabled does not write. -/
theorem piece_down (s : Conn ι β) (fn : Fn) {es : List Effect} (f : Frame ι)
    (hes : .shutdownWrite ∉ es) : Piece w [] s (s.down fn es f) := by
  refine .quiet _ rfl rfl (fun h => ?_) rfl (by simpa using hes)
  rw [isWriting_of_none (by simp [ch, down])] at h
  cases h

omit [Fifo β UInt8] in
theorem inputBuffer_onChannel {op : Reactor.Op} (h : s.onChannel op = .ok t) :
    t.inputBuffer = s.inputBuffer := by
  obtain ⟨r, -, rfl⟩ := onChannel_ok h
  rfl

theorem inputBuffer_bufferRest {rest : List UInt8} (h : s.bufferRest rest = .ok t) :
    t.inputBuffer = s.inputBuffer := by
  unfold bufferRest at h
  simp only at h
  generalize hu : (if Fifo.readable s.outputBuffer + rest.length ≥ s.highWaterMark ∧
    s.highWaterMarkCallback = true then
      s.queueInLoop (.highWaterMark (Fifo.readable s.outputBuffer + rest.length)) else s) = u at h
  have hsu : u.inputBuffer = s.inputBuffer := by
    rw [← hu]
    split <;> rfl
  split at h
  · exact Except.ok.inj h ▸ hsu
  · exact (inputBuffer_onChannel h).trans hsu

theorem inputBuffer_sendInLoop {m : Message} (h : s.sendInLoop m w = .ok t) :
    t.inputBuffer = s.inputBuffer := by
  unfold sendInLoop at h
  split at h
  · exact Except.ok.inj h ▸ rfl
  · split at h
    · cases w with
      | wrote n =>
        simp only at h
        split at h
        · obtain rfl := Except.ok.inj h
          split <;> rfl
        · exact inputBuffer_bufferRest (s := (s.emit _).emit _) h
      | error errno =>
        simp only at h
        split at h
        · exact inputBuffer_bufferRest (s := s.emit _) h
        · exact Except.ok.inj h ▸ rfl
    · simp only at h
      split at h
      · exact inputBuffer_bufferRest (s := s.emit _) h
      · exact Except.ok.inj h ▸ rfl

theorem inputBuffer_handleWrite (h : s.handleWrite w = .ok t) : t.inputBuffer = s.inputBuffer := by
  have hdrained : ∀ v : Conn ι β,
      (let x := if v.writeCompleteCallback then v.queueInLoop .writeComplete else v
        if x.state = .kDisconnecting then x.shutdownInLoop else x).inputBuffer = v.inputBuffer := by
    intro v
    simp only [shutdownInLoop]
    split <;> split <;> try split
    all_goals rfl
  unfold handleWrite at h
  split at h
  · cases w with
    | error errno => exact Except.ok.inj h ▸ rfl
    | wrote k =>
      simp only at h
      split at h
      · split at h
        · simp only [bind, Except.bind] at h
          split at h
          · cases h
          · next v hv =>
            obtain rfl := Except.ok.inj h
            have hinput := inputBuffer_onChannel hv
            exact (hdrained v).trans hinput
        · exact Except.ok.inj h ▸ rfl
      · exact Except.ok.inj h ▸ rfl
  · exact Except.ok.inj h ▸ rfl

omit [DecidableEq ι] in
theorem shutdownWrite_not_mem_marked (s : Conn ι β) (rest : List UInt8) :
    .shutdownWrite ∉ s.marked rest := by
  unfold marked
  split
  · exact fun h => nomatch List.mem_singleton.mp h
  · exact List.not_mem_nil

omit [DecidableEq ι] [Fifo β UInt8] in
theorem isWriting_completed (s : Conn ι β) : s.completed.isWriting = s.isWriting := by
  unfold completed
  split <;> rfl

omit [DecidableEq ι] [Fifo β UInt8] in
theorem completed_quiet (s : Conn ι β) :
    ∃ es, s.completed.trace = s.trace ++ es ∧ .shutdownWrite ∉ es := by
  refine ⟨_, completed_trace s, ?_⟩
  split
  · exact fun h => nomatch List.mem_singleton.mp h
  · exact List.not_mem_nil

theorem piece_sendInLoop (hA : s.toReactor.Agree) {m : Message} (h : s.sendInLoop m w = .ok t) :
    Piece w [] s t := by
  have hinput := inputBuffer_sendInLoop h
  by_cases hst : s.state = .kDisconnected
  · rw [sendInLoop, if_pos hst] at h
    obtain rfl := Except.ok.inj h
    exact .quiet [_] rfl rfl id rfl (by simp)
  -- what is buffered after the effects `es`
  have hbuffers : ∀ {u : Conn ι β} {rest : List UInt8} (es : List Effect), Buffers u rest t →
      u.trace = s.trace ++ es → .shutdownWrite ∉ es → (w = .error EPIPE → ¬ s.Direct) →
        Piece w [] s t := by
    intro u rest es hb hu hes hw
    refine ⟨by rw [hinput, List.append_nil], ⟨es ++ u.marked rest, ?_, fun hm => ?_⟩,
      fun he hd => absurd hd (hw he)⟩
    · rw [hb.trace, hu, List.append_assoc]
    · rcases List.mem_append.mp hm with hm | hm
      · exact absurd hm hes
      · exact absurd hm (shutdownWrite_not_mem_marked u rest)
  cases sendInLoop_sends hA hst h with
  | @all n hd hn =>
    obtain ⟨es, hes, hno⟩ := completed_quiet
      ((s.emit (.sendInLoop m s.state (some (.wrote n)))).emit (.write m.bytes))
    refine .quiet (.sendInLoop m s.state (some (.wrote n)) :: .write m.bytes :: es) hinput
      (completed_outputBuffer _) (fun hwr => ?_) ?_ (by simpa using hno)
    · rw [isWriting_completed] at hwr
      exact hwr
    · rw [hes, emit_trace, emit_trace, List.append_assoc, List.append_assoc]
      rfl
  | part hd hn ht => exact hbuffers [_, _] ht (List.append_assoc _ _ _) (by simp) fun he => by cases he
  | soft hd he hm ht =>
    refine hbuffers [_] ht rfl (by simp) ?_
    rintro ⟨⟩
    cases he
  | fault hd he => exact .quiet [_] rfl rfl id rfl (by simp)
  | behind hd hm ht => exact hbuffers [_] ht rfl (by simp) fun _ => hd
  | empty hd hm => exact .quiet [_] rfl rfl id rfl (by simp)

theorem piece_handleWrite (hA : s.toReactor.Agree) (h : s.handleWrite w = .ok t) :
    Piece w [] s t := by
  have hinput := inputBuffer_handleWrite h
  cases handleWrite_drains hA h with
  | idle => exact .refl s
  | part hw hk hn =>
    exact ⟨(List.append_nil _).symm, ⟨[_], rfl, fun hm => by simp at hm⟩, nofun⟩
  | all hpos hk hw hb ht hs =>
    exact ⟨by rw [hinput, List.append_nil], ⟨_, ht, fun _ => hw⟩, nofun⟩

theorem piece_handleClose (hA : s.toReactor.Agree) (h : s.handleClose = .ok t) :
    Piece w [] s t := by
  by_cases hs : s.state.Live
  · rw [handleClose_eq hA hs] at h
    exact Except.ok.inj h ▸ piece_down s _ _ (by simp)
  · rw [handleClose, Assertion.check_of_not (p := _ ∨ _) hs] at h
    cases h

theorem piece_reading (hA : s.toReactor.Agree)
    (h : s.startReadInLoop = .ok t ∨ s.stopReadInLoop = .ok t) : Piece w [] s t := by
  obtain ⟨hw, ho, hd⟩ := reading_does hA h
  refine .quiet [] ?_ ho (hw ▸ id) hd.trace List.not_mem_nil
  rcases h with h | h
  · rw [startReadInLoop, onChannel_eq hA (by simp)] at h
    split at h <;> exact Except.ok.inj h ▸ rfl
  · rw [stopReadInLoop, onChannel_eq hA (by simp)] at h
    split at h <;> exact Except.ok.inj h ▸ rfl

omit [Fifo β UInt8] in
theorem isWriting_up (s : Conn ι β) : s.up.isWriting = s.isWriting := by
  have hmask := Flags.set_test_of_disjoint s.ch.events
    (show kReadEvent &&& kWriteEvent = 0#32 by decide)
  simp only [isWriting, ch, up, Reactor.setMask_self, Channel.isWriting, Mask.has]
  rw [show (s.chan s.channel).events = s.ch.events from rfl, hmask]

/-- **A functor** reads what its `readFd` delivers. -/
theorem piece_runFunctor (hA : s.toReactor.Agree) {r : ReadResult} {f : Functor}
    (h : s.runFunctor w r f = .ok t) :
    Piece w (if f = .handleRead then r.bytes else []) s t := by
  cases f with
  | sendInLoop m => exact piece_sendInLoop hA h
  | handleWrite => exact piece_handleWrite hA h
  | connectEstablished =>
    by_cases hst : s.state = .kConnecting
    · obtain rfl := Except.ok.inj ((connectEstablished_eq hA hst).symm.trans h)
      refine .quiet _ rfl rfl (fun hw => ?_) rfl (by simp)
      rwa [isWriting_up] at hw
    · simp [runFunctor, connectEstablished, hst, bind, Except.bind] at h
  | connectDestroyed =>
    by_cases hst : s.state = .kConnected
    · exact Except.ok.inj ((connectDestroyed_eq hA hst).symm.trans h) ▸
        piece_down s _ _ List.not_mem_nil
    · obtain rfl := Except.ok.inj (h.symm.trans (if_neg hst))
      exact .quiet [] rfl rfl id (List.append_nil _).symm List.not_mem_nil
  | shutdownInLoop => exact Except.ok.inj h ▸ piece_shutdownInLoop s
  | forceCloseInLoop =>
    simp only [runFunctor, forceCloseInLoop] at h
    split at h
    · exact piece_handleClose hA h
    · exact Except.ok.inj h ▸ .refl s
  | startReadInLoop => exact piece_reading hA (Or.inl h)
  | stopReadInLoop => exact piece_reading hA (Or.inr h)
  | handleRead =>
    rw [if_pos rfl]
    cases r with
    | error errno => exact Except.ok.inj h ▸ .refl s
    | data bytes =>
      simp only [runFunctor, handleRead] at h
      split at h
      · obtain rfl := Except.ok.inj h
        refine ⟨Fifo.peek_append _ _, ⟨[.messageCallback], rfl, ?_⟩, fun _ hd => hd⟩
        exact fun hm => by cases List.mem_singleton.mp hm
      · next hlen =>
        have hnil : bytes = [] := List.length_eq_zero_iff.mp (Nat.eq_zero_of_not_pos hlen)
        rw [hnil]
        exact piece_handleClose hA h
  | handleClose => exact piece_handleClose hA h
  | addTimerInLoop | writeComplete | highWaterMark | handleError | other =>
    exact Except.ok.inj h ▸ .quiet [] rfl rfl id (List.append_nil _).symm List.not_mem_nil

/-- A public function that does not come down to a functor. -/
theorem piece_callNow {b : Bool} {c : Call} (hc : b = true → c.direct s.state = none)
    (h : s.callNow b w c = .ok t) {v : WriteResult} : Piece v [] s t := by
  have hquiet : ∀ {u : Conn ι β} (es : List Effect), s.callNow b w c = .ok u →
      u.inputBuffer = s.inputBuffer → u.outputBuffer = s.outputBuffer →
        u.isWriting = s.isWriting → u.trace = s.trace ++ es → .shutdownWrite ∉ es →
          Piece v [] s t := by
    intro u es hu hi ho hw ht hes
    obtain rfl := Except.ok.inj (hu.symm.trans h)
    exact .quiet es hi ho (hw ▸ id) ht hes
  cases c with
  | send m =>
    by_cases hs : s.state = .kConnected
    · cases b with
      | true => simp [Call.direct, hs] at hc
      | false =>
        refine hquiet (u := (s.emit (.call (.send m))).queueInLoop (.sendInLoop m))
          [.call (.send m), .queued (.sendInLoop m)] ?_ rfl rfl rfl (List.append_assoc _ _ _) (by simp)
        simp only [callNow, Call.body, TcpConnection.send, if_pos hs]
        rfl
    · refine hquiet (u := s.emit (.call (.send m))) [.call (.send m)] ?_ rfl rfl rfl rfl (by simp)
      simp only [callNow, Call.body, TcpConnection.send, if_neg hs]
      rfl
  | shutdown =>
    let es : List Effect := [.call .shutdown, .setState .shutdown s.state .kConnected,
      .setState .shutdown .kConnected .kDisconnecting]
    let u := ((s.emit (.call .shutdown)).setState .shutdown .kConnected).setState .shutdown
      .kDisconnecting
    have hu : u.trace = s.trace ++ es := by simp [u, es]
    cases b with
    | false =>
      refine hquiet (u := u.queueInLoop .shutdownInLoop) (es ++ [.queued .shutdownInLoop]) rfl rfl rfl rfl
        ?_ (by simp [es])
      rw [← List.append_assoc, ← hu]
      rfl
    | true =>
      have ht : u.shutdownInLoop = t := Except.ok.inj h
      exact ht ▸ (piece_shutdownInLoop u).after es rfl rfl rfl hu (by simp [es])
  | forceClose =>
    by_cases hs : s.state.Live
    · refine hquiet (u := ((s.emit (.call .forceClose)).setState .forceClose
        .kDisconnecting).queueInLoop .forceCloseInLoop) [.call .forceClose,
        .setState .forceClose s.state .kDisconnecting, .queued .forceCloseInLoop] ?_ rfl rfl rfl
        (by simp [queueInLoop]) (by simp)
      rw [callNow, show Call.body s.state .forceClose =
        [.setState .forceClose .kDisconnecting, .queueInLoop .forceCloseInLoop] from if_pos hs]
      rfl
    · refine hquiet (u := s.emit (.call .forceClose)) [.call .forceClose] ?_ rfl rfl rfl rfl (by simp)
      rw [callNow, show Call.body s.state .forceClose = [] from if_neg hs]
      rfl
  | forceCloseWithDelay =>
    by_cases hs : s.state.Live
    · let u := (s.emit (.call .forceCloseWithDelay)).setState .forceCloseWithDelay .kDisconnecting
      have hbody : Call.body s.state .forceCloseWithDelay =
        [.setState .forceCloseWithDelay .kDisconnecting, .runInLoop .addTimerInLoop] := if_pos hs
      cases b with
      | true =>
        refine hquiet (u := { u with timers := u.timers + 1 }) [.call .forceCloseWithDelay,
          .setState .forceCloseWithDelay s.state .kDisconnecting] ?_ rfl rfl rfl (by simp [u]) (by simp)
        rw [callNow, hbody]
        rfl
      | false =>
        refine hquiet (u := u.queueInLoop .addTimerInLoop) [.call .forceCloseWithDelay,
          .setState .forceCloseWithDelay s.state .kDisconnecting, .queued .addTimerInLoop] ?_ rfl rfl rfl
          (by simp [u, queueInLoop]) (by simp)
        rw [callNow, hbody]
        rfl
    · refine hquiet (u := s.emit (.call .forceCloseWithDelay)) [.call .forceCloseWithDelay] ?_ rfl rfl
        rfl rfl (by simp)
      rw [callNow, show Call.body s.state .forceCloseWithDelay = [] from if_neg hs]
      rfl
  | startRead =>
    cases b with
    | true => cases hc rfl
    | false =>
      exact hquiet (u := (s.emit (.call .startRead)).queueInLoop .startReadInLoop)
        [.call .startRead, .queued .startReadInLoop] rfl rfl rfl rfl (List.append_assoc _ _ _) (by simp)
  | stopRead =>
    cases b with
    | true => cases hc rfl
    | false =>
      exact hquiet (u := (s.emit (.call .stopRead)).queueInLoop .stopReadInLoop)
        [.call .stopRead, .queued .stopReadInLoop] rfl rfl rfl rfl (List.append_assoc _ _ _) (by simp)

/-- **What a step reads, and when it half-closes.**  The outcome of its `::write` is `w`. -/
theorem piece_stepped {a : Act} (hb : Base s) (h : Stepped s a t) (hw : ∀ v ∈ a.write, v = w) :
    Piece w (s.input a) s t := by
  have hstill : ∀ es, s.runs a = none → t.inputBuffer = s.inputBuffer →
      t.outputBuffer = s.outputBuffer → t.ch.events = s.ch.events → t.trace = s.trace ++ es →
        .shutdownWrite ∉ es → Piece w (s.input a) s t := by
    intro es hr hi ho he ht hes
    rw [input_eq_nil fun r hf => by rw [hr] at hf; cases hf]
    refine .quiet es hi ho (fun hwr => ?_) ht hes
    rw [isWriting, Channel.isWriting, he] at hwr
    exact hwr
  have hnil : t.trace = s.trace → t.trace = s.trace ++ [] := fun h => by rw [h, List.append_nil]
  cases h with
  | @ran _ v r f u _ hu hr hran =>
    have hv : v = w := by cases hu <;> exact hw _ rfl
    have hpiece := piece_runFunctor (hu.toReactor ▸ hb.agree) (hv ▸ hr)
    have hread : s.input a = if f = .handleRead then r.bytes else [] := by
      by_cases hf : f = .handleRead
      · rw [if_pos hf, input, reads, hu.runs_eq, hf]
        rfl
      · rw [if_neg hf]
        refine input_eq_nil fun r' hr' => ?_
        rw [hu.runs_eq] at hr'
        cases hr'
        exact absurd rfl hf
    rw [hread]
    cases hu with
    | call hs hc => exact hpiece.after [_] rfl rfl rfl rfl (by simp)
    | _ => exact hpiece.after [] rfl rfl rfl (List.append_nil _).symm List.not_mem_nil
  | @refused _ v r f u e hu he =>
    have hread : s.input a = [] := by
      refine input_eq_nil fun r' hr' => ?_
      rw [hu.runs_eq] at hr'
      cases hr'
      rcases he with ⟨-, hf, -⟩ | ⟨-, hf, -⟩
      · cases hf
      · obtain rfl : r = .data [] := eq_of_beq hf
        rfl
    rw [hread]
    exact .quiet [] rfl rfl id (List.append_nil _).symm List.not_mem_nil
  | called hu hr ht =>
    cases hu with
    | call hs hc =>
      rw [input_eq_nil fun r hf => by simp [runs, hc] at hf]
      exact piece_callNow (fun _ => hc) hr
    | fire hs =>
      have hpiece : Piece w [] { s with timers := s.timers - 1 } t := piece_callNow (fun _ => rfl) hr
      rw [input_eq_nil fun r hf => by cases hf]
      exact hpiece.after [] rfl rfl rfl (List.append_nil _).symm List.not_mem_nil
    | offCall =>
      rw [input_eq_nil fun r hf => by cases hf]
      exact piece_callNow (fun hc => by cases hc) hr
  | poll hs hwt hf =>
    exact hstill [] rfl rfl rfl ((Reactor.fillActiveChannels_same hf).1.events _) (hnil rfl)
      List.not_mem_nil
  | stuck hs => exact hstill [] (by simp [runs, hs]) rfl rfl rfl (hnil rfl) List.not_mem_nil
  | removed hs =>
    exact hstill [.destroyed] (by simp [runs, hs]) rfl rfl (by simp [ch]) rfl (by simp)
  | closeCallback hs =>
    exact hstill [.closeCallback] (by simp [runs, hs]) rfl rfl rfl rfl (by simp)
  | @handle _ _ c rest hs =>
    exact hstill [] (by simp [runs, hs]) rfl rfl ((sameViews_enterChannel s c).events _) (hnil rfl)
      List.not_mem_nil
  | skip hs hf => exact hstill [] (runs_of_skips hs hf) rfl rfl rfl (hnil rfl) List.not_mem_nil
  | handled hs =>
    exact hstill [] (by simp [runs, hs]) rfl rfl (by simp [ch, Reactor.setChan]) (hnil rfl)
      List.not_mem_nil
  | eventsDone hs | doPendingFunctors hs =>
    exact hstill [] (by simp [runs, hs]) rfl rfl rfl (hnil rfl) List.not_mem_nil
  | ret | queue => exact hstill [] rfl rfl rfl rfl (hnil rfl) List.not_mem_nil
  | begin => exact hstill [_] rfl rfl rfl rfl rfl (by simp)
  | write => exact hstill [_] rfl rfl rfl rfl rfl (by simp)
  | defer => exact hstill [_] rfl rfl rfl rfl rfl (by simp)

omit [DecidableEq ι] in
theorem matched_init {r : Reactor ι} {c : ι} (hr : Fresh r c) (mark : Nat) (hw wc : Bool) :
    (init r c mark hw wc : Conn ι β).Matched := by
  obtain ⟨fd, hfd⟩ := hr.chan
  have hnone : (init r c mark hw wc : Conn ι β).isWriting = false :=
    isWriting_of_none (by simp [init, ch, hfd, Channel.new])
  have hempty : Fifo.readable (init r c mark hw wc : Conn ι β).outputBuffer = 0 :=
    Fifo.readable_eq_zero.mpr Fifo.peek_empty
  rw [Matched, hnone, hempty]
  exact ⟨(fun h => by cases h), fun h => absurd h (Nat.lt_irrefl 0)⟩

end

end Conn

end SimpleNet
