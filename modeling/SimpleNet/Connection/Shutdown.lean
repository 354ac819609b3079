import SimpleNet.Lib.Before
import SimpleNet.Connection.Down
import SimpleNet.Connection.Stream

/-!
# Graceful shutdown

Runs in which the users only call `send`, `shutdown`, `startRead` and `stopRead`, no write
fails with a hard error and nothing closes the connection.  `graceful_shutdown`: when
`shutdownWrite` is executed, each message whose `send` had returned before `shutdown()` was
called has been accepted, and all that was accepted has been written.

`sendInLoop` functors and `shutdownInLoop` functors wait in one queue, in the order of their
calls.  Two steps overtake the queue: `shutdown()` on the loop thread, which runs
`shutdownInLoop` at once (`shutdown_overtakes`), and `handleWrite` when it drains the buffer
of a `kDisconnecting` connection.
-/

namespace SimpleNet

/-! ### Messages in the trace -/

/-- The message of a `sendInLoop` functor. -/
def Functor.message : Functor → Option Message
  | .sendInLoop m => some m
  | _ => none

namespace Effect

/-- The functor that an effect queues. -/
def functor : Effect → Option Functor
  | .queued f => some f
  | _ => none

/-- The message that a call of `send` has passed on, to the queue or to `sendInLoop`. -/
def passes : Effect → Option Message
  | .queued f => f.message
  | .sendInLoop m _ _ => some m
  | _ => none

/-- The effects of a functor that closes nothing, its half-close excepted. -/
def Plain : Effect → Prop
  | .shutdownWrite | .call _ => False
  | .queued f => f = .writeComplete ∨ ∃ len, f = .highWaterMark len
  | .sendInLoop _ st direct => ¬ Refuses st direct
  | _ => True

end Effect

theorem Effect.Plain.passes {e : Effect} (h : e.Plain) {m : Message} (hm : e.passes = some m) :
    ∃ st direct, e = .sendInLoop m st direct ∧ ¬ Refuses st direct := by
  cases e with
  | queued f =>
    rcases h with rfl | ⟨len, rfl⟩ <;> cases hm
  | sendInLoop m' st direct =>
    obtain rfl := Option.some.inj hm
    exact ⟨st, direct, rfl, h⟩
  | _ => cases hm

theorem Effect.Plain.functor {e : Effect} (h : e.Plain) : e.functor ≠ some .shutdownInLoop := by
  cases e with
  | queued f =>
    rcases h with rfl | ⟨len, rfl⟩ <;> simp [Effect.functor]
  | _ => simp [Effect.functor]

/-- `send` found the connection `kConnected` and returned before `shutdown()` was called. -/
def Early (es : List Effect) (m : Message) : Prop :=
  ∃ e ∈ es.before (.call .shutdown), e.passes = some m

instance (es : List Effect) (m : Message) : Decidable (Early es m) :=
  inferInstanceAs (Decidable (∃ e ∈ _, _))

/-- The message was given to `sendInLoop` and accepted. -/
def Delivered (es : List Effect) (m : Message) : Prop :=
  ∃ st direct, .sendInLoop m st direct ∈ es ∧ ¬ Refuses st direct

/-- The early messages were accepted, and what was accepted was written. -/
structure Settled (es : List Effect) : Prop where
  early : ∀ m, Early es m → Delivered es m
  written : sent es = accepted es

/-- No accepted data is lost: each `shutdownWrite` finds the stream settled. -/
def Graceful (es : List Effect) : Prop := ∀ p, p ++ [.shutdownWrite] <+: es → Settled p

/-- A message that becomes early has just been passed on, before any `shutdown()`. -/
theorem early_append {es fs : List Effect} {m : Message} (h : Early (es ++ fs) m) :
    Early es m ∨ .call .shutdown ∉ es ∧ ∃ e ∈ fs, e.passes = some m := by
  obtain ⟨e, he, hm⟩ := h
  rcases List.mem_before_or he with he | ⟨hes, he⟩
  · exact Or.inl ⟨e, he, hm⟩
  · exact Or.inr ⟨hes, e, List.before_subset he, hm⟩

theorem Delivered.append {es : List Effect} {m : Message} (h : Delivered es m)
    (fs : List Effect) : Delivered (es ++ fs) m := by
  obtain ⟨st, direct, hm, hr⟩ := h
  exact ⟨st, direct, List.mem_append_left _ hm, hr⟩

theorem graceful_concat {es : List Effect} {e : Effect} (h : Graceful es)
    (he : e = .shutdownWrite → Settled es) : Graceful (es ++ [e]) := by
  intro p hp
  rcases List.prefix_concat_iff.mp hp with hp | hp
  · obtain ⟨rfl, he'⟩ := List.append_inj' hp rfl
    exact he (List.singleton_inj.mp he').symm
  · exact h p hp

theorem Graceful.append {fs : List Effect} : ∀ {es : List Effect}, Graceful es →
    .shutdownWrite ∉ fs → Graceful (es ++ fs) := by
  induction fs with
  | nil => intro es h _; simpa using h
  | cons e fs ih =>
    intro es h hn
    have he : Graceful (es ++ [e]) :=
      graceful_concat h fun heq => absurd (heq ▸ List.mem_cons_self) hn
    have := ih he fun hm => hn (List.mem_cons_of_mem _ hm)
    rwa [List.append_assoc] at this

/-- The write errors that do not end a connection. -/
def WriteResult.Soft : WriteResult → Prop
  | .wrote _ => True
  | .error errno => Conn.faultError errno = false

instance : (w : WriteResult) → Decidable w.Soft
  | .wrote _ => .isTrue trivial
  | .error errno => inferInstanceAs (Decidable (Conn.faultError errno = false))

namespace Conn

variable {ι β : Type}

/-! ### The functions -/

/-- `t` is `s` after the effects `es`, and the functors that they queue. -/
structure Does (s : Conn ι β) (es : List Effect) (t : Conn ι β) : Prop where
  trace : t.trace = s.trace ++ es
  pending : t.pendingFunctors = s.pendingFunctors ++ es.filterMap Effect.functor

theorem Does.of_eq {s t : Conn ι β} (ht : t.trace = s.trace)
    (hp : t.pendingFunctors = s.pendingFunctors) : Does s [] t :=
  ⟨by simp [ht], by simp [hp]⟩

theorem Does.trans {s t u : Conn ι β} {es fs : List Effect} (h : Does s es t) (g : Does t fs u) :
    Does s (es ++ fs) u where
  trace := by rw [g.trace, h.trace, List.append_assoc]
  pending := by rw [g.pending, h.pending, List.filterMap_append, List.append_assoc]

theorem does_emit (s : Conn ι β) {e : Effect} (he : e.functor = none) : Does s [e] (s.emit e) :=
  ⟨rfl, by simp [he]⟩

theorem does_queueInLoop (s : Conn ι β) (f : Functor) : Does s [.queued f] (s.queueInLoop f) :=
  ⟨rfl, rfl⟩

variable [Fifo β UInt8]

/-- A channel that does not write has nothing to write. -/
def Flushed (s : Conn ι β) : Prop := s.isWriting = false → Fifo.readable s.outputBuffer = 0

/-- `handleWrite` empties the buffer. -/
def drains (s : Conn ι β) : WriteResult → Bool
  | .wrote k => s.isWriting && decide (0 < Fifo.readable s.outputBuffer) &&
      decide (Fifo.readable s.outputBuffer ≤ k)
  | .error _ => false

variable [DecidableEq ι]

omit [Fifo β UInt8] in
theorem isWriting_setMask (s : Conn ι β) (m : Mask) :
    isWriting { s with toReactor := s.toReactor.setMask s.channel m } = m.has kWriteEvent := by
  simp [isWriting, ch, Channel.isWriting]

omit [DecidableEq ι] in
theorem flushed_of_isWriting {s : Conn ι β} (h : s.isWriting = true) : Flushed s :=
  fun hf => by rw [h] at hf; cases hf

theorem bufferRest_does {s t : Conn ι β} (hA : s.toReactor.Agree) {rest : List UInt8}
    (h : s.bufferRest rest = .ok t) :
    t.isWriting = true ∧ ∃ es, Does s es t ∧ ∀ e ∈ es, e.Plain := by
  unfold bufferRest at h
  simp only at h
  generalize hu : (if Fifo.readable s.outputBuffer + rest.length ≥ s.highWaterMark ∧
    s.highWaterMarkCallback = true then
      s.queueInLoop (.highWaterMark (Fifo.readable s.outputBuffer + rest.length)) else s) = u at h
  have hsu : u.toReactor = s.toReactor ∧ ∃ es, Does s es u ∧ ∀ e ∈ es, e.Plain := by
    rw [← hu]
    split
    · refine ⟨rfl, _, does_queueInLoop s _, ?_⟩
      simp [Effect.Plain]
    · exact ⟨rfl, [], .of_eq rfl rfl, by simp⟩
  obtain ⟨hr, es, hes, hp⟩ := hsu
  split at h
  · next hw =>
    obtain rfl := Except.ok.inj h
    exact ⟨hw, es, ⟨hes.trace, hes.pending⟩, hp⟩
  · rw [onChannel_eq (by exact hr ▸ hA) (by simp)] at h
    obtain rfl := Except.ok.inj h
    refine ⟨?_, es, ⟨hes.trace, hes.pending⟩, hp⟩
    rw [isWriting_setMask]
    simp [Reactor.Op.mask, Mask.has, kWriteEvent, POLLOUT]

omit [DecidableEq ι] [Fifo β UInt8] in
theorem not_refuses {s : Conn ι β} (hs : s.state ≠ .kDisconnected) {direct : Option WriteResult}
    (hd : ∀ w, direct = some w → w.Soft) : ¬ Refuses s.state direct := by
  rintro (h | h | h)
  · exact hs h
  · exact absurd (hd _ h) (by decide)
  · exact absurd (hd _ h) (by decide)

/-- `sendInLoop` accepts the message. -/
theorem sendInLoop_does {s t : Conn ι β} (hA : s.toReactor.Agree) (hs : s.state ≠ .kDisconnected)
    (hf : Flushed s) {m : Message} {w : WriteResult} (hw : w.Soft)
    (h : s.sendInLoop m w = .ok t) : Flushed t ∧ ∃ direct es,
      Does s (.sendInLoop m s.state direct :: es) t ∧
        ∀ e ∈ .sendInLoop m s.state direct :: es, e.Plain := by
  -- what the buffering adds to the effects before it
  have hrest : ∀ {u : Conn ι β} {es : List Effect} {direct : Option WriteResult}
      {rest : List UInt8}, u.toReactor = s.toReactor →
      Does s (.sendInLoop m s.state direct :: es) u →
      (∀ e ∈ .sendInLoop m s.state direct :: es, e.Plain) → u.bufferRest rest = .ok t →
      Flushed t ∧ ∃ direct es, Does s (.sendInLoop m s.state direct :: es) t ∧
        ∀ e ∈ .sendInLoop m s.state direct :: es, e.Plain := by
    intro u es direct rest hu hes hp hb
    obtain ⟨hwr, fs, hfs, hq⟩ := bufferRest_does (hu ▸ hA) hb
    exact ⟨flushed_of_isWriting hwr, direct, es ++ fs, hes.trans hfs,
      List.forall_mem_append.mpr ⟨hp, hq⟩⟩
  have hplain : ∀ {direct : Option WriteResult}, (∀ w, direct = some w → w.Soft) →
      ∀ e ∈ [Effect.sendInLoop m s.state direct], e.Plain := by
    intro direct hd e he
    obtain rfl := List.mem_singleton.mp he
    exact not_refuses hs hd
  unfold sendInLoop at h
  rw [if_neg hs] at h
  split at h
  · have hd : ∀ w', some w = some w' → w'.Soft := fun w' he => Option.some.inj he ▸ hw
    have h1 := does_emit s (e := .sendInLoop m s.state (some w)) rfl
    cases w with
    | wrote n =>
      simp only at h
      have h2 : Does s [.sendInLoop m s.state (some (.wrote n)), .write (m.bytes.take n)]
          ((s.emit (.sendInLoop m s.state (some (.wrote n)))).emit (.write (m.bytes.take n))) :=
        h1.trans (does_emit _ rfl)
      have hp : ∀ e ∈ [Effect.sendInLoop m s.state (some (.wrote n)), .write (m.bytes.take n)],
          e.Plain := by
        intro e he
        rcases List.mem_cons.mp he with rfl | he
        · exact not_refuses hs hd
        · obtain rfl := List.mem_singleton.mp he
          trivial
      split at h
      · obtain rfl := Except.ok.inj h
        split
        · have h3 : Does s [.sendInLoop m s.state (some (.wrote n)), .write (m.bytes.take n),
              .queued .writeComplete] _ := h2.trans (does_queueInLoop _ .writeComplete)
          have hq : ∀ e ∈ [Effect.queued .writeComplete], e.Plain := by simp [Effect.Plain]
          exact ⟨hf, _, _, h3, List.forall_mem_append.mpr ⟨hp, hq⟩⟩
        · exact ⟨hf, _, _, h2, hp⟩
      · exact hrest (u := (s.emit _).emit _) rfl h2 hp h
    | error errno =>
      simp only at h
      split at h
      · exact hrest (u := s.emit _) rfl h1 (hplain hd) h
      · exact Except.ok.inj h ▸ ⟨hf, _, [], h1, hplain hd⟩
  · have h1 := does_emit s (e := .sendInLoop m s.state none) rfl
    simp only at h
    split at h
    · exact hrest (u := s.emit _) rfl h1 (hplain (by simp)) h
    · exact Except.ok.inj h ▸ ⟨hf, _, [], h1, hplain (by simp)⟩

omit [Fifo β UInt8] [DecidableEq ι] in
/-- The end of `handleWrite`, when the buffer is drained. -/
theorem drained_does {s t : Conn ι β} (hw : s.isWriting = false)
    (h : t = let x := if s.writeCompleteCallback then s.queueInLoop .writeComplete else s
      if x.state = .kDisconnecting then x.shutdownInLoop else x) :
    t.isWriting = false ∧ t.outputBuffer = s.outputBuffer ∧
      ∃ es, (∀ e ∈ es, e.Plain ∧ e.passes = none) ∧
        (Does s es t ∨ Does s (es ++ [.shutdownWrite]) t ∧ s.state = .kDisconnecting) := by
  have hx : ∃ x es, x = (if s.writeCompleteCallback then s.queueInLoop .writeComplete else s) ∧
      x.isWriting = false ∧ x.outputBuffer = s.outputBuffer ∧ x.state = s.state ∧
      (∀ e ∈ es, e.Plain ∧ e.passes = none) ∧ Does s es x := by
    split
    · exact ⟨_, [.queued .writeComplete], rfl, hw, rfl, rfl,
        by simp [Effect.Plain, Effect.passes, Functor.message], does_queueInLoop s _⟩
    · exact ⟨s, [], rfl, hw, rfl, rfl, by simp, .of_eq rfl rfl⟩
  obtain ⟨x, es, hx, hxw, hxb, hxs, hp, hes⟩ := hx
  simp only [← hx] at h
  subst h
  by_cases hst : x.state = .kDisconnecting
  · rw [if_pos hst, shutdownInLoop, hxw]
    exact ⟨hxw, hxb, es, hp, Or.inr ⟨hes.trans (does_emit x rfl), hxs ▸ hst⟩⟩
  · rw [if_neg hst]
    exact ⟨hxw, hxb, es, hp, Or.inl hes⟩

/-- `handleWrite` executes `shutdownWrite` only when it has drained the buffer of a
`kDisconnecting` connection. -/
theorem handleWrite_does {s t : Conn ι β} (hA : s.toReactor.Agree) (hf : Flushed s)
    {w : WriteResult} (h : s.handleWrite w = .ok t) : Flushed t ∧ ∃ es,
      (∀ e ∈ es, e.Plain ∧ e.passes = none) ∧ (Does s es t ∨
        Does s (es ++ [.shutdownWrite]) t ∧ t.isWriting = false ∧ s.drains w = true ∧
          s.state = .kDisconnecting) := by
  have hstay : Flushed s ∧ ∃ es, (∀ e ∈ es, e.Plain ∧ e.passes = none) ∧ (Does s es s ∨
      Does s (es ++ [.shutdownWrite]) s ∧ s.isWriting = false ∧ s.drains w = true ∧
        s.state = .kDisconnecting) :=
    ⟨hf, [], by simp, Or.inl (.of_eq rfl rfl)⟩
  unfold handleWrite at h
  split at h
  · next hwr =>
    cases w with
    | error errno => exact Except.ok.inj h ▸ hstay
    | wrote k =>
      simp only at h
      generalize hn : min k (Fifo.readable s.outputBuffer) = n at h
      split at h
      · next hpos =>
        have h1 := does_emit s (e := .write ((Fifo.peek s.outputBuffer).take n)) rfl
        have hp1 : ∀ e ∈ [Effect.write ((Fifo.peek s.outputBuffer).take n)],
            e.Plain ∧ e.passes = none := by
          simp [Effect.Plain, Effect.passes]
        split at h
        · next hempty =>
          rw [onChannel_eq (by exact hA) (by simp)] at h
          have hsv : Does s [Effect.write ((Fifo.peek s.outputBuffer).take n)] { s with
              trace := s.trace ++ [.write ((Fifo.peek s.outputBuffer).take n)]
              outputBuffer := Fifo.retrieve s.outputBuffer n
              toReactor := s.toReactor.setMask s.channel (Reactor.Op.mask .disableWriting s.ch.events) } :=
            ⟨rfl, by simp [Effect.functor]⟩
          have hvw := isWriting_setMask { s with
              trace := s.trace ++ [Effect.write ((Fifo.peek s.outputBuffer).take n)]
              outputBuffer := Fifo.retrieve s.outputBuffer n }
            (Reactor.Op.mask .disableWriting s.ch.events)
          rw [show (Reactor.Op.mask .disableWriting s.ch.events).has kWriteEvent = false by
            simp [Reactor.Op.mask, Mask.has]] at hvw
          obtain ⟨htw, htb, es, hp, hcase⟩ := drained_does hvw (Except.ok.inj h).symm
          have hdr : s.drains (.wrote k) = true := by
            have hle : n ≤ Fifo.readable s.outputBuffer := by omega
            have hr : Fifo.readable (Fifo.retrieve s.outputBuffer n) = 0 := hempty
            rw [Fifo.readable_retrieve hle] at hr
            simp only [drains, hwr, Bool.true_and, Bool.and_eq_true, decide_eq_true_eq]
            omega
          refine ⟨fun _ => by rw [htb]; exact hempty, _ :: es,
            List.forall_mem_append.mpr ⟨hp1, hp⟩, ?_⟩
          rcases hcase with hes | ⟨hes, hst⟩
          · exact Or.inl (hsv.trans hes)
          · exact Or.inr ⟨hsv.trans hes, htw, hdr, hst⟩
        · obtain rfl := Except.ok.inj h
          exact ⟨flushed_of_isWriting hwr, _, hp1, Or.inl ⟨h1.trace, h1.pending⟩⟩
      · exact Except.ok.inj h ▸ hstay
  · exact Except.ok.inj h ▸ hstay

omit [Fifo β UInt8] in
/-- Reading does not touch the write flag. -/
theorem reading_does {s t : Conn ι β} (hA : s.toReactor.Agree)
    (h : s.startReadInLoop = .ok t ∨ s.stopReadInLoop = .ok t) :
    t.isWriting = s.isWriting ∧ t.outputBuffer = s.outputBuffer ∧ Does s [] t := by
  have hmask : ∀ {u : Conn ι β} {m : Mask}, m &&& kWriteEvent = s.ch.events &&& kWriteEvent →
      u.channel = s.channel → u.toReactor = s.toReactor.setMask s.channel m →
        u.isWriting = s.isWriting := by
    intro u m hm hc hr
    rw [isWriting, ch, hc, hr, Reactor.setMask_self, Channel.isWriting, Mask.has, hm]
    rfl
  have hdisj : kReadEvent &&& kWriteEvent = 0#32 := by decide
  rcases h with h | h
  · unfold startReadInLoop at h
    rw [onChannel_eq hA (by simp)] at h
    split at h
    · obtain rfl := Except.ok.inj h
      exact ⟨hmask (Flags.set_test_of_disjoint _ hdisj) rfl rfl, rfl, .of_eq rfl rfl⟩
    · exact Except.ok.inj h ▸ ⟨rfl, rfl, .of_eq rfl rfl⟩
  · unfold stopReadInLoop at h
    rw [onChannel_eq hA (by simp)] at h
    split at h
    · obtain rfl := Except.ok.inj h
      exact ⟨hmask (Flags.clear_test_of_disjoint _ hdisj) rfl rfl, rfl, .of_eq rfl rfl⟩
    · exact Except.ok.inj h ▸ ⟨rfl, rfl, .of_eq rfl rfl⟩

/-- What a functor does that closes nothing. -/
structure Works (s : Conn ι β) (w : WriteResult) (f : Functor) (es : List Effect)
    (t : Conn ι β) : Prop where
  flushed : Flushed t
  plain : ∀ e ∈ es, e.Plain
  delivers : ∀ m, f = .sendInLoop m → Delivered es m
  does : Does s es t ∨ Does s (es ++ [.shutdownWrite]) t ∧ t.isWriting = false ∧
    (∀ e ∈ es, e.passes = none) ∧
    (f = .shutdownInLoop ∨ f = .handleWrite ∧ s.drains w = true ∧ s.state = .kDisconnecting)

theorem runFunctor_works {s t : Conn ι β} (hA : s.toReactor.Agree) (hs : s.state ≠ .kDisconnected)
    (hfl : Flushed s) {w : WriteResult} {r : ReadResult} {f : Functor} (hw : w.Soft)
    (hf : f ≠ .connectDestroyed ∧ f.closes r = false) (h : s.runFunctor w r f = .ok t) :
    ∃ es, Works s w f es t := by
  have hquiet : (∀ m, f ≠ .sendInLoop m) → t.isWriting = s.isWriting →
      t.outputBuffer = s.outputBuffer → Does s [] t → ∃ es, Works s w f es t := by
    intro hg h1 h2 h3
    refine ⟨[], ?_, by simp, fun m hm => absurd hm (hg m), Or.inl h3⟩
    intro hwr
    rw [h2]
    exact hfl (h1 ▸ hwr)
  cases f with
  | sendInLoop m =>
    obtain ⟨hft, direct, es, hes, hp⟩ := sendInLoop_does hA hs hfl hw h
    refine ⟨_, hft, hp, fun m' hm => ⟨s.state, direct, ?_, ?_⟩, Or.inl hes⟩
    · obtain rfl := Functor.sendInLoop.inj hm
      exact List.mem_cons_self
    · exact hp _ List.mem_cons_self
  | handleWrite =>
    obtain ⟨hft, es, hp, hes⟩ := handleWrite_does hA hfl h
    refine ⟨es, hft, fun e he => (hp e he).1, fun m hm => (by cases hm), hes.imp_right ?_⟩
    exact fun ⟨h1, h2, h3, h4⟩ => ⟨h1, h2, fun e he => (hp e he).2, Or.inr ⟨rfl, h3, h4⟩⟩
  | shutdownInLoop =>
    have ht : s.shutdownInLoop = t := Except.ok.inj h
    unfold shutdownInLoop at ht
    split at ht
    · subst ht
      exact hquiet (by simp) rfl rfl (.of_eq rfl rfl)
    · next hwr =>
      subst ht
      exact ⟨[], hfl, by simp, fun m hm => (by cases hm), Or.inr ⟨does_emit s rfl,
        (Bool.not_eq_true _).mp hwr, by simp, Or.inl rfl⟩⟩
  | connectEstablished =>
    by_cases hst : s.state = .kConnecting
    · obtain rfl := Except.ok.inj ((connectEstablished_eq hA hst).symm.trans h)
      have hwr : s.up.isWriting = s.isWriting := by
        have := Flags.set_test_of_disjoint s.ch.events
          (show kReadEvent &&& kWriteEvent = 0#32 by decide)
        simp only [isWriting, ch, Conn.up, Reactor.setMask_self, Channel.isWriting, Mask.has]
        rw [show (s.chan s.channel).events = s.ch.events from rfl, this]
      refine ⟨_, fun h => hfl (hwr ▸ h), ?_, fun m hm => (by cases hm), Or.inl ⟨rfl, ?_⟩⟩
      · simp [Effect.Plain]
      · simp [Effect.functor, Conn.up]
    · simp [runFunctor, connectEstablished, hst, bind, Except.bind] at h
  | connectDestroyed => exact absurd rfl hf.1
  | startReadInLoop =>
    obtain ⟨h1, h2, h3⟩ := reading_does hA (Or.inl h)
    exact hquiet (by simp) h1 h2 h3
  | stopReadInLoop =>
    obtain ⟨h1, h2, h3⟩ := reading_does hA (Or.inr h)
    exact hquiet (by simp) h1 h2 h3
  | handleRead =>
    cases r with
    | error errno =>
      obtain rfl := Except.ok.inj h
      exact hquiet (by simp) rfl rfl (.of_eq rfl rfl)
    | data bytes =>
      cases bytes with
      | nil => cases hf.2
      | cons b bytes =>
        obtain rfl := Except.ok.inj h
        exact ⟨[.messageCallback], hfl, by simp [Effect.Plain], fun m hm => (by cases hm),
          Or.inl ⟨rfl, by simp [emit, push, Effect.functor]⟩⟩
  | forceCloseInLoop => cases hf.2
  | handleClose => cases hf.2
  | addTimerInLoop | writeComplete | highWaterMark _ | handleError | other =>
    obtain rfl := Except.ok.inj h
    exact hquiet (by simp) rfl rfl (.of_eq rfl rfl)

end Conn

/-! ### The runs -/

/-- The calls that close nothing. -/
def Call.gentle : Call → Bool
  | .forceClose | .forceCloseWithDelay => false
  | _ => true

namespace Conn

/-- Users call `send`, `shutdown`, `startRead` and `stopRead`, and other objects establish
the connection. -/
def Act.gentle : Act → Bool
  | .call c _ | .offCall c | .begin _ c => c.gentle
  | .enter f _ _ | .queue f => f == .connectEstablished || f == .other
  | .fire _ => false
  | _ => true

/-- The outcome of the step's `::write`, if it makes one. -/
def Act.write : Act → Option WriteResult
  | .go w _ | .call _ w | .enter _ w _ => some w
  | _ => none

/-- `shutdown()` is called on the loop thread. -/
def Act.shutsDown : Act → Bool
  | .call .shutdown _ => true
  | _ => false

variable {ι β : Type} [Fifo β UInt8]

/-- The step runs a functor that closes the connection. -/
def downing (s : Conn ι β) (a : Act) : Bool :=
  match s.runs a with
  | some (f, r) => f.closes r || f == .connectDestroyed
  | none => false

/-- The step is a `handleWrite` that empties the buffer. -/
def draining (s : Conn ι β) (a : Act) : Bool :=
  match a with
  | .go w _ => s.runsFn a == some .handleWrite && s.drains w
  | _ => false

/-- An early message still waits in the queue. -/
def Waits (s : Conn ι β) : Prop := ∃ m ∈ s.queue.filterMap Functor.message, Early s.trace m

instance (s : Conn ι β) : Decidable s.Waits := inferInstanceAs (Decidable (∃ m ∈ _, _))

/-- Where a shutdown is graceful. -/
structure GracefulOk (s : Conn ι β) (a : Act) : Prop where
  gentle : a.gentle = true
  soft : ∀ w ∈ a.write, w.Soft
  stays : s.downing a = false
  /-- `shutdown()` on the loop thread does not overtake an early message -/
  shutdown : a.shutsDown = true → s.isWriting = false → ¬ s.Waits
  /-- neither does `handleWrite` -/
  drain : s.draining a = true → s.state = .kDisconnecting → ¬ s.Waits

instance (s : Conn ι β) (a : Act) : Decidable (GracefulOk s a) :=
  decidable_of_iff (a.gentle = true ∧ (∀ w ∈ a.write, w.Soft) ∧ s.downing a = false ∧
      (a.shutsDown = true → s.isWriting = false → ¬ s.Waits) ∧
      (s.draining a = true → s.state = .kDisconnecting → ¬ s.Waits))
    ⟨fun ⟨h1, h2, h3, h4, h5⟩ => ⟨h1, h2, h3, h4, h5⟩, fun ⟨h1, h2, h3, h4, h5⟩ =>
      ⟨h1, h2, h3, h4, h5⟩⟩

omit [Fifo β UInt8] in
theorem not_waits {s : Conn ι β} {m : Message} (h : ¬ s.Waits) (hm : .sendInLoop m ∈ s.queue) :
    ¬ Early s.trace m :=
  fun he => h ⟨m, List.mem_filterMap.mpr ⟨_, hm, rfl⟩, he⟩

/-- What the runs of `graceful_shutdown` keep. -/
structure GracefulInv [DecidableEq ι] (s : Conn ι β) : Prop where
  base : Base s
  stays : s.state ≠ .kDisconnected
  intact : Intact s
  flushed : Flushed s
  /-- `shutdownInLoop` waits only after a call of `shutdown()` -/
  called : (.shutdownInLoop ∈ s.queue ∨ ∃ n, .runInLoop .shutdownInLoop ∈ s.threads n ∨
    .queueInLoop .shutdownInLoop ∈ s.threads n) → .call .shutdown ∈ s.trace
  /-- an early message was accepted, or waits in front of every `shutdownInLoop` -/
  early : ∀ m, Early s.trace m →
    Delivered s.trace m ∨ .sendInLoop m ∈ s.queue.before .shutdownInLoop
  graceful : Graceful s.trace

/-- What a step does to the trace and to the queue: the functors `popped` run, the effects
`es` happen and the functors `fs` are queued. -/
structure Moves (s t : Conn ι β) (popped : List Functor) (es : List Effect)
    (fs : List Functor) : Prop where
  flushed : Flushed t
  trace : t.trace = s.trace ++ es
  queue : ∃ q, s.queue = popped ++ q ∧ t.queue = q ++ fs
  delivers : ∀ m, .sendInLoop m ∈ popped → Delivered es m
  passes : ∀ e ∈ es, ∀ m, e.passes = some m → Delivered es m ∨ .sendInLoop m ∈ fs
  shutdown : .shutdownInLoop ∈ fs →
    fs = [.shutdownInLoop] ∧ (.call .shutdown ∈ s.trace ∨ .call .shutdown ∈ es)
  threads : ∀ n, .runInLoop .shutdownInLoop ∈ t.threads n ∨
    .queueInLoop .shutdownInLoop ∈ t.threads n → (.runInLoop .shutdownInLoop ∈ s.threads n ∨
      .queueInLoop .shutdownInLoop ∈ s.threads n) ∨ .call .shutdown ∈ es
  halfClose : .shutdownWrite ∉ es ∨ ∃ p, es = p ++ [.shutdownWrite] ∧ .shutdownWrite ∉ p ∧
    (∀ e ∈ p, e.passes = none) ∧ t.isWriting = false ∧
      (popped = [.shutdownInLoop] ∨ ¬ s.Waits)

section

variable [DecidableEq ι] {s t : Conn ι β} {popped fs : List Functor} {es : List Effect}

theorem Moves.called (hm : Moves s t popped es fs) (h : GracefulInv s)
    (ht : .shutdownInLoop ∈ t.queue ∨ ∃ n, .runInLoop .shutdownInLoop ∈ t.threads n ∨
      .queueInLoop .shutdownInLoop ∈ t.threads n) : .call .shutdown ∈ t.trace := by
  obtain ⟨q, hsq, htq⟩ := hm.queue
  rw [hm.trace, List.mem_append]
  rcases ht with ht | ⟨n, ht⟩
  · rw [htq] at ht
    rcases List.mem_append.mp ht with hq | hf
    · exact Or.inl (h.called (Or.inl (hsq ▸ List.mem_append_right _ hq)))
    · exact (hm.shutdown hf).2
  · rcases hm.threads n ht with hs | he
    · exact Or.inl (h.called (Or.inr ⟨n, hs⟩))
    · exact Or.inr he

theorem Moves.early (hm : Moves s t popped es fs) (h : GracefulInv s) (m : Message)
    (he : Early t.trace m) :
    Delivered t.trace m ∨ .sendInLoop m ∈ t.queue.before .shutdownInLoop := by
  obtain ⟨q, hsq, htq⟩ := hm.queue
  have hdel : Delivered es m → Delivered t.trace m := fun ⟨st, direct, hmem, hr⟩ =>
    ⟨st, direct, hm.trace ▸ List.mem_append_right _ hmem, hr⟩
  rw [hm.trace] at he
  rcases early_append he with he | ⟨hno, e, hes, hpass⟩
  · rcases h.early m he with hd | hq
    · exact Or.inl (hm.trace ▸ hd.append es)
    · rw [hsq] at hq
      rcases List.mem_before_or hq with hp | ⟨-, hq⟩
      · exact Or.inl (hdel (hm.delivers m (List.before_subset hp)))
      · exact Or.inr (htq ▸ List.mem_before_append hq)
  · rcases hm.passes e hes m hpass with hd | hf
    · exact Or.inl (hdel hd)
    · -- the functor is queued behind a queue without `shutdownInLoop`
      have hq : .shutdownInLoop ∉ q := fun hq =>
        hno (h.called (Or.inl (hsq ▸ List.mem_append_right _ hq)))
      have hfs : .shutdownInLoop ∉ fs := by
        intro hs
        rw [(hm.shutdown hs).1] at hf
        simp at hf
      rw [htq, List.before_of_not_mem (by simp [hq, hfs])]
      exact Or.inr (List.mem_append_right _ hf)

theorem Moves.graceful (hm : Moves s t popped es fs) (h : GracefulInv s) (ht : Intact t) :
    Graceful t.trace := by
  rcases hm.halfClose with hno | ⟨p, rfl, hno, hpass, hwr, hcase⟩
  · exact hm.trace ▸ h.graceful.append hno
  have htrace : t.trace = (s.trace ++ p) ++ [.shutdownWrite] := by
    rw [hm.trace, List.append_assoc]
  rw [htrace]
  refine graceful_concat (h.graceful.append hno) fun _ => ⟨?_, ?_⟩
  · intro m he
    rcases early_append he with he | ⟨-, e, hep, hm'⟩
    · rcases h.early m he with hd | hq
      · exact hd.append p
      · rcases hcase with rfl | hw
        · obtain ⟨q, hsq, -⟩ := hm.queue
          rw [hsq, List.singleton_append, List.before_cons_self] at hq
          cases hq
        · exact absurd he (not_waits hw (List.before_subset hq))
    · rw [hpass e hep] at hm'
      cases hm'
  · have hpeek := Fifo.readable_eq_zero.mp (hm.flushed hwr)
    unfold Intact at ht
    rw [htrace, hpeek, List.append_nil, sent_append, accepted_append] at ht
    simpa [sent, accepted, Effect.sent, Effect.accepted] using ht

end

/-! ### What each step moves -/

variable [DecidableEq ι]

omit [DecidableEq ι] in
/-- A functor moves what it does, if `pre` and `popped` account for how it came to run. -/
theorem Works.moves {s u t : Conn ι β} {w : WriteResult} {f : Functor} {pre es : List Effect}
    {popped : List Functor} (h : Works u w f es t) (hut : u.trace = s.trace ++ pre)
    (hpre : ∀ e ∈ pre, ∃ c, e = .call c) (hq : s.queue = popped ++ u.queue)
    (hpop : popped = [f] ∨ popped = [] ∧ f ≠ .shutdownInLoop) (hth : t.threads = s.threads)
    (hpos : t.position = u.position)
    (hdrain : f = .handleWrite → u.drains w = true → u.state = .kDisconnecting → ¬ s.Waits) :
    ∃ es fs, Moves s t popped es fs := by
  have hcall : ∀ e ∈ pre, e.passes = none ∧ e ≠ .shutdownWrite := by
    intro e he
    obtain ⟨c, rfl⟩ := hpre e he
    exact ⟨rfl, by simp⟩
  have hplain : ∀ e ∈ es, e ≠ .shutdownWrite := by
    rintro e he rfl
    exact h.plain _ he
  -- the effects are `pre`, then `es`, then perhaps a half-close
  have hmoves : ∀ es', Does u es' t → es ⊆ es' → (∀ e ∈ es', e ∈ es ∨ e = .shutdownWrite) →
      es'.filterMap Effect.functor = es.filterMap Effect.functor →
      (.shutdownWrite ∉ pre ++ es' ∨ ∃ p, pre ++ es' = p ++ [.shutdownWrite] ∧
        .shutdownWrite ∉ p ∧ (∀ e ∈ p, e.passes = none) ∧ t.isWriting = false ∧
          (popped = [.shutdownInLoop] ∨ ¬ s.Waits)) →
      Moves s t popped (pre ++ es') (es.filterMap Effect.functor) := by
    intro es' hdoes hsub hmem hfm hhalf
    have hdel : ∀ {m}, Delivered es m → Delivered (pre ++ es') m :=
      fun ⟨st, direct, hm, hr⟩ => ⟨st, direct, List.mem_append_right _ (hsub hm), hr⟩
    refine ⟨h.flushed, by rw [hdoes.trace, hut, List.append_assoc], ⟨u.queue, hq, ?_⟩, ?_, ?_, ?_,
      fun n hn => Or.inl (by rwa [hth] at hn), hhalf⟩
    · rw [Conn.queue, Conn.queue, batch, batch, hpos, hdoes.pending, hfm, List.append_assoc]
    · intro m hm
      rcases hpop with rfl | ⟨rfl, -⟩
      · exact hdel (h.delivers m (List.mem_singleton.mp hm).symm)
      · cases hm
    · intro e he m hm
      left
      rcases List.mem_append.mp he with he | he
      · rw [(hcall e he).1] at hm
        cases hm
      · rcases hmem e he with he' | rfl
        · obtain ⟨st, direct, rfl, hr⟩ := (h.plain e he').passes hm
          exact ⟨st, direct, List.mem_append_right _ he, hr⟩
        · cases hm
    · intro hs
      obtain ⟨e, he, hf⟩ := List.mem_filterMap.mp hs
      exact absurd hf (h.plain e he).functor
  have hnone : .shutdownWrite ∉ pre ++ es := fun hm => by
    rcases List.mem_append.mp hm with hm | hm
    · exact (hcall _ hm).2 rfl
    · exact hplain _ hm rfl
  rcases h.does with hdoes | ⟨hdoes, hwr, hpass, hf⟩
  · exact ⟨_, _, hmoves es hdoes (List.Subset.refl _) (fun e he => Or.inl he) rfl (Or.inl hnone)⟩
  · refine ⟨_, _, hmoves _ hdoes (List.subset_append_left _ _) ?_ (by simp [Effect.functor])
      (Or.inr ⟨pre ++ es, (List.append_assoc _ _ _).symm, hnone, ?_, hwr, ?_⟩)⟩
    · intro e he
      exact (List.mem_append.mp he).imp_right List.mem_singleton.mp
    · intro e he
      rcases List.mem_append.mp he with he | he
      · exact (hcall e he).1
      · exact hpass e he
    · rcases hf with rfl | ⟨rfl, hd, hst⟩
      · exact Or.inl (hpop.resolve_right fun h => h.2 rfl)
      · exact Or.inr (hdrain rfl hd hst)

theorem moves_ran {s u t : Conn ι β} {a : Act} {w : WriteResult} {r : ReadResult} {f : Functor}
    (h : GracefulInv s) (hok : GracefulOk s a) (hu : Runs s a w r f u)
    (hr : u.runFunctor w r f = .ok t) (hran : Ran u r f t) :
    ∃ popped es fs, Moves s t popped es fs := by
  have hstate : u.state = s.state := by cases hu <;> rfl
  have hdr : u.drains w = s.drains w := by cases hu <;> rfl
  have hwr : Flushed u := by cases hu <;> exact h.flushed
  have hsoft : w.Soft := by
    refine hok.soft w ?_
    cases hu <;> rfl
  have hdown : f ≠ .connectDestroyed ∧ f.closes r = false := by
    have := hok.stays
    simp only [downing, hu.runs_eq, Bool.or_eq_false_iff, beq_eq_false_iff_ne] at this
    exact ⟨this.2, this.1⟩
  obtain ⟨es, hes⟩ := runFunctor_works (hu.toReactor ▸ h.base.agree) (hstate ▸ h.stays) hwr hsoft
    hdown hr
  have hth : t.threads = s.threads := by
    rw [hran.threads]
    cases hu <;> rfl
  obtain ⟨pre, hut, hpre⟩ : ∃ pre, u.trace = s.trace ++ pre ∧ ∀ e ∈ pre, ∃ c, e = .call c := by
    cases hu with
    | @call c => exact ⟨[.call c], rfl, by simp⟩
    | _ => exact ⟨[], by simp, by simp⟩
  have hdrain : f = .handleWrite → u.drains w = true → u.state = .kDisconnecting → ¬ s.Waits := by
    intro hf hd hst
    refine hok.drain ?_ (hstate ▸ hst)
    subst hf
    cases hu with
    | functors hs => simp [draining, runsFn, runs, hs, ← hdr, hd]
    | onWrite hs hrev => simp [draining, runsFn, runs, hs, hrev, ← hdr, hd]
    | enter => cases hok.gentle
    | call hs hc => rcases Call.direct_cases hc with ⟨m, hf, -⟩ | hf | hf <;> cases hf
  rcases hu.queue h.base.position with hq | ⟨hq, hno⟩
  · exact ⟨_, hes.moves hut hpre hq (Or.inl rfl) hth hran.position hdrain⟩
  · refine ⟨[], hes.moves hut hpre hq.symm (Or.inr ⟨rfl, ?_⟩) hth hran.position hdrain⟩
    rintro rfl
    cases hu with
    | functors hs => exact hno _ _ hs
    | enter => cases hok.gentle
    | call hs hc => rcases Call.direct_cases hc with ⟨m, hf, -⟩ | hf | hf <;> cases hf

omit [DecidableEq ι] in
/-- A step that runs nothing and queues the functors `fs`. -/
theorem moves_of_does {s t : Conn ι β} {es : List Effect} {fs : List Functor} (hf : Flushed t)
    (ht : t.trace = s.trace ++ es) (hq : t.queue = s.queue ++ fs)
    (hpass : ∀ e ∈ es, ∀ m, e.passes = some m → .sendInLoop m ∈ fs)
    (hsh : .shutdownInLoop ∈ fs →
      fs = [.shutdownInLoop] ∧ (.call .shutdown ∈ s.trace ∨ .call .shutdown ∈ es))
    (hth : ∀ n, .runInLoop .shutdownInLoop ∈ t.threads n ∨
      .queueInLoop .shutdownInLoop ∈ t.threads n → (.runInLoop .shutdownInLoop ∈ s.threads n ∨
        .queueInLoop .shutdownInLoop ∈ s.threads n) ∨ .call .shutdown ∈ es)
    (hno : .shutdownWrite ∉ es) : Moves s t [] es fs where
  flushed := hf
  trace := ht
  queue := ⟨s.queue, rfl, hq⟩
  delivers m hm := by cases hm
  passes e he m hm := Or.inr (hpass e he m hm)
  shutdown := hsh
  threads := hth
  halfClose := Or.inl hno

omit [DecidableEq ι] in
/-- A step that passes on no message, queues nothing and makes no half-close. -/
theorem moves_quiet {s t : Conn ι β} (es : List Effect) (hf : Flushed t)
    (hes : ∀ e ∈ es, e.passes = none ∧ e ≠ .shutdownWrite) (ht : t.trace = s.trace ++ es)
    (hq : t.queue = s.queue) (hth : t.threads = s.threads) : Moves s t [] es [] := by
  apply moves_of_does hf ht (by rw [hq, List.append_nil])
  · intro e he m hm
    rw [(hes e he).1] at hm
    cases hm
  · simp
  · intro n hn
    rw [hth] at hn
    exact Or.inl hn
  · intro hm
    exact (hes _ hm).2 rfl

/-- A call that queues one functor. -/
theorem moves_queues {s t : Conn ι β} {c : Call} {f : Functor} (h : GracefulInv s)
    (hfs : f ≠ .shutdownInLoop) (ht : t = (s.emit (.call c)).queueInLoop f) :
    Moves s t [] [.call c, .queued f] [f] := by
  subst ht
  refine moves_of_does h.flushed (by simp [queueInLoop, emit]) (queue_queueInLoop _ f) ?_ ?_ ?_ ?_
  · intro e he m hm
    simp only [List.mem_cons, List.not_mem_nil, or_false] at he
    rcases he with rfl | rfl
    · cases hm
    · cases f with
      | sendInLoop m' =>
        obtain rfl := Option.some.inj hm
        exact List.mem_singleton.mpr rfl
      | _ => cases hm
  · intro hm
    exact absurd (List.mem_singleton.mp hm).symm hfs
  · exact fun n hn => Or.inl hn
  · simp

/-- The call of `shutdown()` with its two accesses of `state_`. -/
def shutdownEffects (st : StateE) : List Effect :=
  [.call .shutdown, .setState .shutdown st .kConnected,
    .setState .shutdown .kConnected .kDisconnecting]

theorem passes_shutdownEffects {st : StateE} {e : Effect} (he : e ∈ shutdownEffects st) :
    e.passes = none ∧ e ≠ .shutdownWrite := by
  simp only [shutdownEffects, List.mem_cons, List.not_mem_nil, or_false] at he
  rcases he with rfl | rfl | rfl <;> exact ⟨rfl, by simp⟩

/-- `shutdown()` on another thread queues `shutdownInLoop`. -/
theorem moves_shutdown_queued {s t : Conn ι β} {w : WriteResult} (h : GracefulInv s)
    (hr : s.callNow false w .shutdown = .ok t) :
    Moves s t [] (shutdownEffects s.state ++ [.queued .shutdownInLoop]) [.shutdownInLoop] := by
  obtain rfl := Except.ok.inj hr
  refine moves_of_does h.flushed (by simp [shutdownEffects, queueInLoop, emit, setState])
    (queue_queueInLoop _ _) ?_ ?_ ?_ ?_
  · intro e he m hm
    rcases List.mem_append.mp he with he | he
    · rw [(passes_shutdownEffects he).1] at hm
      cases hm
    · obtain rfl := List.mem_singleton.mp he
      cases hm
  · exact fun _ => ⟨rfl, Or.inr (by simp [shutdownEffects])⟩
  · exact fun n hn => Or.inl hn
  · simp [shutdownEffects]

/-- `shutdown()` on the loop thread runs `shutdownInLoop` at once. -/
theorem moves_shutdown_now {s t : Conn ι β} {w : WriteResult} (h : GracefulInv s)
    (hw : s.isWriting = false → ¬ s.Waits) (hr : s.callNow true w .shutdown = .ok t) :
    ∃ es, Moves s t [] es [] := by
  have ht : t = (((s.emit (.call .shutdown)).setState .shutdown .kConnected).setState .shutdown
      .kDisconnecting).shutdownInLoop := (Except.ok.inj hr).symm
  unfold shutdownInLoop at ht
  split at ht
  · subst ht
    exact ⟨_, moves_quiet (shutdownEffects s.state) h.flushed
      (fun e he => passes_shutdownEffects he) (by simp [shutdownEffects]) rfl rfl⟩
  · next hwr =>
    have hwr' : s.isWriting = false := (Bool.not_eq_true _).mp hwr
    have hno : .shutdownWrite ∉ shutdownEffects s.state := fun hm =>
      (passes_shutdownEffects hm).2 rfl
    subst ht
    refine ⟨shutdownEffects s.state ++ [.shutdownWrite], h.flushed, by simp [shutdownEffects],
      ⟨s.queue, rfl, (List.append_nil _).symm⟩, by simp, ?_, by simp, fun n hn => Or.inl hn,
      Or.inr ⟨_, rfl, hno, fun e he => (passes_shutdownEffects he).1, hwr', Or.inr (hw hwr')⟩⟩
    intro e he m hm
    rcases List.mem_append.mp he with he | he
    · rw [(passes_shutdownEffects he).1] at hm
      cases hm
    · obtain rfl := List.mem_singleton.mp he
      cases hm

theorem moves_called {s u t : Conn ι β} {a : Act} {l : Bool} {w : WriteResult} {c : Call}
    (h : GracefulInv s) (hok : GracefulOk s a) (hu : Calls s a l w c u)
    (hr : u.callNow l w c = .ok t) : ∃ popped es fs, Moves s t popped es fs := by
  obtain ⟨rfl, hgentle, hdirect, hshut⟩ : u = s ∧ c.gentle = true ∧
      (l = true → c.direct s.state = none) ∧ (l = true → c = .shutdown → a.shutsDown = true) := by
    cases hu with
    | call hs hc => exact ⟨rfl, hok.gentle, fun _ => hc, fun _ hc => hc ▸ rfl⟩
    | fire => cases hok.gentle
    | offCall => exact ⟨rfl, hok.gentle, fun h => (by cases h), fun h => (by cases h)⟩
  cases c with
  | forceClose => cases hgentle
  | forceCloseWithDelay => cases hgentle
  | send m =>
    by_cases hs : u.state = .kConnected
    · cases l with
      | true => simp [Call.direct, hs] at hdirect
      | false =>
        simp only [callNow, Call.body, TcpConnection.send, if_pos hs] at hr
        exact ⟨_, _, _, moves_queues h (by simp) (Except.ok.inj hr).symm⟩
    · simp only [callNow, Call.body, TcpConnection.send, if_neg hs] at hr
      obtain rfl := Except.ok.inj hr
      exact ⟨_, _, _, moves_quiet [.call (.send m)] h.flushed (by simp [Effect.passes]) rfl rfl rfl⟩
  | startRead =>
    cases l with
    | true => cases hdirect rfl
    | false => exact ⟨_, _, _, moves_queues h (by simp) (Except.ok.inj hr).symm⟩
  | stopRead =>
    cases l with
    | true => cases hdirect rfl
    | false => exact ⟨_, _, _, moves_queues h (by simp) (Except.ok.inj hr).symm⟩
  | shutdown =>
    cases l with
    | false => exact ⟨_, _, _, moves_shutdown_queued h hr⟩
    | true =>
      obtain ⟨es, hes⟩ := moves_shutdown_now h (hok.shutdown (hshut rfl rfl)) hr
      exact ⟨_, _, _, hes⟩

omit [Fifo β UInt8] [DecidableEq ι] in
theorem shutdown_of_body {c : Call} {st : StateE} (h : .runInLoop .shutdownInLoop ∈ c.body st ∨
    .queueInLoop .shutdownInLoop ∈ c.body st) : c = .shutdown := by
  cases c with
  | shutdown => rfl
  | send m =>
    simp only [Call.body, TcpConnection.send] at h
    split at h <;> simp at h
  | forceClose =>
    simp only [Call.body, TcpConnection.forceClose] at h
    split at h <;> simp at h
  | forceCloseWithDelay =>
    simp only [Call.body, TcpConnection.forceCloseWithDelay] at h
    split at h <;> simp at h
  | startRead => simp [Call.body, TcpConnection.startRead] at h
  | stopRead => simp [Call.body, TcpConnection.stopRead] at h

omit [Fifo β UInt8] in
theorem batch_of_handle {s t : Conn ι β} {c : ι} {rest : List (Frame ι)}
    (hp : Position s.channel s.position) (hs : s.stack = .handle c :: rest)
    (ht : t.stack = (if c = s.channel then [.onClose, .onError, .onRead, .onWrite, .handled]
      else [.user]) ++ rest) : t.batch = s.batch := by
  rw [batch, batch, position_of_loop hs rfl]
  rw [position_of_loop hs rfl] at hp
  by_cases hc : c = s.channel
  · rw [if_pos hc] at ht
    rw [position_of_loop ht rfl]
    rfl
  · rw [if_neg hc] at ht
    rw [position_of_callback ht rfl]
    show batchOf (rest.dropWhile Frame.isCallback) = _
    rw [dropWhile_of_position hp.tail]
    exact batchOf_tail hp (by simp)

omit [Fifo β UInt8] in
/-- The steps of `loop` itself move nothing. -/
theorem queue_stepped_of_loop {s t : Conn ι β} {f : Frame ι} {rest : List (Frame ι)}
    (hp : Position s.channel s.position) (hs : s.stack = f :: rest)
    (ht : f = .doPendingFunctors ∧ t.stack = .functors s.pendingFunctors :: rest ∧
        t.pendingFunctors = [] ∨
      (∃ c, f = .handle c ∧ t.stack = (if c = s.channel then
        [.onClose, .onError, .onRead, .onWrite, .handled] else [.user]) ++ rest ∧
        t.pendingFunctors = s.pendingFunctors)) : t.queue = s.queue := by
  rcases ht with ⟨rfl, ht, htp⟩ | ⟨c, rfl, ht, htp⟩
  · rw [Conn.queue, Conn.queue, batch, batch, position_of_loop hs rfl, position_of_loop ht rfl, htp]
    exact List.append_nil _
  · rw [Conn.queue, Conn.queue, htp, batch_of_handle hp hs ht]

theorem moves_stepped {s t : Conn ι β} {a : Act} (h : GracefulInv s) (hok : GracefulOk s a)
    (hst : Stepped s a t) : ∃ popped es fs, Moves s t popped es fs := by
  have hp := h.base.position
  have hflushed : t.outputBuffer = s.outputBuffer → t.ch.events = s.ch.events → Flushed t := by
    intro hb he hw
    rw [hb]
    refine h.flushed ?_
    rw [isWriting, Channel.isWriting, he] at hw
    exact hw
  have hquiet : ∀ es, (∀ e ∈ es, e.passes = none ∧ e ≠ .shutdownWrite) →
      t.outputBuffer = s.outputBuffer → t.ch.events = s.ch.events → t.trace = s.trace ++ es →
      t.queue = s.queue → t.threads = s.threads → ∃ popped es fs, Moves s t popped es fs :=
    fun es hes hb he htr hq hth => ⟨_, _, _, moves_quiet es (hflushed hb he) hes htr hq hth⟩
  have hpop : ∀ {f : Frame ι} {rest : List (Frame ι)}, s.stack = f :: rest →
      (∀ b, f = .functors b → b = []) → t.stack = rest →
      t.pendingFunctors = s.pendingFunctors → t.queue = s.queue := by
    intro f rest hs hf ht htp
    rw [Conn.queue, Conn.queue, htp, batch_of_pop hp hs hf ht]
  have hnil : t.trace = s.trace → t.trace = s.trace ++ [] := fun h => by rw [h, List.append_nil]
  cases hst with
  | ran hu hr hran => exact moves_ran h hok hu hr hran
  | called hu hr ht => exact moves_called h hok hu hr
  | poll hs hw hf =>
    refine hquiet [] (by simp) rfl ((Reactor.fillActiveChannels_same hf).1.events _) (hnil rfl) ?_ rfl
    rw [Conn.queue, Conn.queue, batch, batch, Conn.position, Conn.position, hs]
    generalize Reactor.activeChannels _ = l
    cases l <;> rfl
  | refused | stuck => exact hquiet [] (by simp) rfl rfl (hnil rfl) rfl rfl
  | removed hs =>
    exact hquiet [.destroyed] (by simp [Effect.passes]) rfl (by simp [ch]) rfl
      (hpop hs (by simp) rfl rfl) rfl
  | closeCallback hs =>
    exact hquiet [.closeCallback] (by simp [Effect.passes]) rfl rfl rfl
      (hpop hs (by simp) rfl rfl) rfl
  | @handle w r c rest hs =>
    exact hquiet [] (by simp) rfl ((sameViews_enterChannel s c).events _) (hnil rfl)
      (queue_stepped_of_loop hp hs (Or.inr ⟨c, rfl, rfl, rfl⟩)) rfl
  | skip hs hf =>
    refine hquiet [] (by simp) rfl rfl (hnil rfl) (hpop hs ?_ rfl rfl) rfl
    rintro b rfl
    cases b with
    | nil => rfl
    | cons f b => exact hf.elim
  | handled hs =>
    exact hquiet [] (by simp) rfl (by simp [ch, Reactor.setChan]) (hnil rfl)
      (hpop hs (by simp) rfl rfl) rfl
  | eventsDone hs =>
    exact hquiet [] (by simp) rfl rfl (hnil rfl) (hpop hs (by simp) rfl rfl) rfl
  | ret hs => exact hquiet [] (by simp) rfl rfl (hnil rfl) (hpop hs (by simp) rfl rfl) rfl
  | doPendingFunctors hs =>
    exact hquiet [] (by simp) rfl rfl (hnil rfl)
      (queue_stepped_of_loop hp hs (Or.inl ⟨rfl, rfl, rfl⟩)) rfl
  | @queue f =>
    refine ⟨[], [], [f], moves_of_does h.flushed (hnil rfl) (List.append_assoc _ _ _).symm (by simp)
      ?_ (fun n hn => Or.inl hn) (by simp)⟩
    intro hm
    obtain rfl := List.mem_singleton.mp hm
    cases hok.gentle
  | @begin n c hs =>
    refine ⟨[], [.call c], [], moves_of_does h.flushed rfl (List.append_nil _).symm
      (by simp [Effect.passes]) (by simp) ?_ (by simp)⟩
    intro k hk
    have hbody : (.runInLoop .shutdownInLoop ∈ c.body s.state ∨
        .queueInLoop .shutdownInLoop ∈ c.body s.state) → .call .shutdown ∈ [Effect.call c] :=
      fun hc => by simp [shutdown_of_body hc]
    rcases hk with hk | hk
    · exact (mem_update_threads hk).imp Or.inl fun h => hbody (Or.inl h.2)
    · exact (mem_update_threads hk).imp Or.inr fun h => hbody (Or.inr h.2)
  | write hs =>
    exact ⟨[], [_], [], moves_of_does h.flushed rfl (List.append_nil _).symm
      (by simp [Effect.passes]) (by simp)
      (fun _ hk => Or.inl (hk.imp (mem_threads_of_tail hs) (mem_threads_of_tail hs))) (by simp)⟩
  | @defer n m f ms hs hm =>
    have hmem : .runInLoop f ∈ s.threads n ∨ .queueInLoop f ∈ s.threads n := by
      rw [hs]
      rcases hm with rfl | rfl
      · exact Or.inl List.mem_cons_self
      · exact Or.inr List.mem_cons_self
    refine ⟨[], [.queued f], [f], moves_of_does h.flushed rfl (queue_queueInLoop _ f) ?_ ?_
      (fun _ hk => Or.inl (hk.imp (mem_threads_of_tail hs) (mem_threads_of_tail hs))) (by simp)⟩
    · intro e he m' hm'
      obtain rfl := List.mem_singleton.mp he
      cases f with
      | sendInLoop m'' =>
        obtain rfl := Option.some.inj hm'
        exact List.mem_singleton.mpr rfl
      | _ => cases hm'
    · intro hf
      obtain rfl := List.mem_singleton.mp hf
      exact ⟨rfl, Or.inl (h.called (Or.inr ⟨n, hmem⟩))⟩

theorem gracefulInv_stepped {s t : Conn ι β} {a : Act} (h : GracefulInv s) (hok : GracefulOk s a)
    (hst : Stepped s a t) : GracefulInv t := by
  obtain ⟨popped, es, fs, hm⟩ := moves_stepped h hok hst
  have hintact := intact_stepped h.base hst h.intact
  refine ⟨base_stepped h.base hst, ?_, hintact, hm.flushed, hm.called h, hm.early h,
    hm.graceful h hintact⟩
  intro ht
  obtain ⟨w, r, f, u, hu, hf⟩ := disconnects_stepped h.base hst h.stays ht
  have hdown := hok.stays
  simp only [downing, hu.runs_eq, Bool.or_eq_false_iff, beq_eq_false_iff_ne] at hdown
  rcases hf with ⟨hf, -⟩ | ⟨hf, -⟩
  · exact hdown.2 hf
  · rw [hdown.1] at hf
    cases hf

/-- **Graceful shutdown loses no accepted data** in every run whose steps are `GracefulOk`. -/
theorem graceful_shutdown {r : Reactor ι} {c : ι} (hr : Fresh r c) (mark : Nat) (hw wc : Bool)
    {as : List Act} {t : Conn ι β}
    (hrun : Steps.run (Steps.guarded GracefulOk step) (init r c mark hw wc) as = some t) :
    Graceful t.trace := by
  refine (Steps.run_invariant (I := GracefulInv) ?_ ?_ hrun).graceful
  · intro s a u h hs
    obtain ⟨hok, hs⟩ := Steps.guarded_eq_some.mp hs
    exact gracefulInv_stepped h hok (step_stepped h.base.agree hs).2
  · refine ⟨base_init hr mark hw wc, by simp [init], by simp [Intact, init, sent, accepted], ?_, ?_,
      ?_, ?_⟩
    · intro _
      simp [init, Fifo.readable_eq_zero]
    · simp [init, Conn.queue, batch, Conn.position, batchOf]
    · rintro m ⟨e, he, -⟩
      cases he
    · intro p hp
      have := List.prefix_nil.mp hp
      simp at this

/-- Another thread sends two messages and shuts the connection down; the second write is short. -/
def sentAndShutDown : List Act :=
  established ++ [.offCall (.send ⟨0, [1, 2]⟩), .offCall (.send ⟨1, [3, 4]⟩), .offCall .shutdown,
    .poll []] ++ goes 2 ++ [.go (.wrote 2) (.data []), .go (.wrote 1) (.data [])] ++ goes 2 ++
    [.poll [(5, POLLOUT)]] ++ goes 4 ++ [.go (.wrote 1) (.data [])]

theorem graceful_shutdown_queued : ∃ t,
    Steps.run (Steps.guarded GracefulOk step) alone sentAndShutDown = some t ∧
    .shutdownWrite ∈ t.trace ∧ Graceful t.trace := by
  have hobs : (Steps.run (Steps.guarded GracefulOk step) alone sentAndShutDown).any
      (fun t => decide (.shutdownWrite ∈ t.trace)) = true := by decide
  obtain ⟨t, ht, hobs⟩ := (Option.any_eq_true _ _).mp hobs
  exact ⟨t, ht, of_decide_eq_true hobs, graceful_shutdown fresh_alone 64 false true ht⟩

/-- Another thread sends a message; then `shutdown()` is called in the connection callback. -/
def overtaken : List Act :=
  [.enter .connectEstablished (.wrote 0) (.data []), .offCall (.send ⟨0, [1]⟩),
    .call .shutdown (.wrote 0)]

/-- `shutdownWrite` is executed before the message reaches `sendInLoop`. -/
theorem shutdown_overtakes : ∃ t, Steps.run step alone overtaken = some t ∧
    ¬ Graceful t.trace := by
  have hobs : (Steps.run step alone overtaken).any (fun t => decide
      (t.trace = t.trace.dropLast ++ [.shutdownWrite] ∧ Early t.trace.dropLast ⟨0, [1]⟩ ∧
        ∀ e ∈ t.trace, e.accepted = [])) = true := by decide
  obtain ⟨t, ht, hobs⟩ := (Option.any_eq_true _ _).mp hobs
  obtain ⟨htrace, hearly, hnone⟩ := of_decide_eq_true hobs
  refine ⟨t, ht, ?_⟩
  intro h
  obtain ⟨st, direct, hmem, hr⟩ := (h t.trace.dropLast ⟨[], by simp [← htrace]⟩).early _ hearly
  have := hnone _ (List.dropLast_subset _ hmem)
  simp [Effect.accepted, hr] at this

end Conn

end SimpleNet
