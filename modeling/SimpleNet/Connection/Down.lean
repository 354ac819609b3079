import SimpleNet.Connection.Queue

/-!
# How a connection goes down

A step that disconnects runs `connectDestroyed` or a functor that calls `handleClose`
(`disconnects_stepped`), and then the loop is past the tests of the connection's channel
(`Runs.past`, `Runs.not_handle`).  A `channel_->remove()` still to come stays on the stack
until it succeeds (`Stepped.mem_remove`), which it does not while the channel's turn is to
come (`Base.not_canRemove`).
-/

namespace SimpleNet

namespace Conn

variable {ι β : Type} [DecidableEq ι] [Fifo β UInt8]

/-- A step that disconnects runs `connectDestroyed` or a closing functor. -/
theorem disconnects_stepped {s t : Conn ι β} {a : Act} (hb : Base s) (h : Stepped s a t)
    (hs : s.state ≠ .kDisconnected) (ht : t.state = .kDisconnected) :
    ∃ w r f u, Runs s a w r f u ∧
      (f = .connectDestroyed ∧ s.state = .kConnected ∧ t = u.down .connectDestroyed [] .remove ∨
        f.closes r = true ∧ t = u.down .handleClose [.handleClose] .closeCallback) := by
  cases h with
  | @ran _ w r f u _ hu hr hran =>
    have hstate : u.state = s.state := by cases hu <;> rfl
    refine ⟨w, r, f, u, hu, ?_⟩
    cases hran with
    | data hd => exact absurd ((hd.state.trans hstate).symm.trans ht) hs
    | user => exact absurd (hstate.symm.trans ht) hs
    | message => exact absurd (hstate.symm.trans ht) hs
    | up => cases ht
    | destroyed hk => exact Or.inl ⟨rfl, hstate ▸ hk, rfl⟩
    | remove => exact absurd (hstate.symm.trans ht) hs
    | closed hf => exact Or.inr ⟨hf, rfl⟩
  | @called _ l w c u _ hu hr hc =>
    have hstate : u.state = s.state := by cases hu <;> rfl
    cases hc with
    | data hd hr => exact absurd ((hd.state.trans hstate).symm.trans ht) hs
    | shutdown hd hr => cases hd.state.symm.trans ht
    | close hf hl hd hr => cases hd.state.symm.trans ht
  | poll | refused | removed | stuck | closeCallback | handle | skip | handled | eventsDone
  | doPendingFunctors | ret | queue | begin | defer => exact absurd ht hs
  | write hst =>
    obtain ⟨c, st, hm⟩ := hb.threads _ _ (hst ▸ List.mem_cons_self)
    exact absurd ht (setState_of_body hm).ne

omit [DecidableEq ι] [Fifo β UInt8] in
/-- When a functor disconnects, the connection's channel is past its close test, and past
its read test unless `POLLHUP` closed it. -/
theorem Runs.past {s u : Conn ι β} {a : Act} {w : WriteResult} {r : ReadResult} {f : Functor}
    (hu : Runs s a w r f u) (hp : Position s.channel s.position) (hs : Untouched s)
    (hf : f = .connectDestroyed ∨ f.closes r = true) :
    .onClose ∉ u.position ∧ (.onRead ∈ u.position → s.hup = true) := by
  have hsub : ∀ f ∈ s.position, f ∈ s.stack := fun f hm => (List.dropWhile_sublist _).subset hm
  have huser : s.inUser = true ∨ s.stack = [] →
      .onClose ∉ s.position ∧ (.onRead ∈ s.position → s.hup = true) := by
    intro h
    rcases h with h | h
    · obtain ⟨rest, h⟩ := inUser_iff.mp h
      obtain ⟨h1, h2⟩ := hs.not_mem (f := .user) (h ▸ List.mem_cons_self) rfl
      exact ⟨fun hm => h1 (hsub _ hm), fun hm => h2 (hsub _ hm)⟩
    · rw [h] at hsub
      exact ⟨fun hm => absurd (hsub _ hm) List.not_mem_nil,
        fun hm => absurd (hsub _ hm) List.not_mem_nil⟩
  cases hu with
  | functors hs =>
    rw [position_of_loop hs rfl] at hp
    obtain rfl := hp.of_functors
    rw [position_of_loop rfl rfl]
    simp
  | onClose hs h =>
    rw [position_of_loop hs rfl] at hp
    rw [position_eq_stack rfl hp.tail]
    exact ⟨hp.of_onClose.1, fun _ => h⟩
  | onError hs => rcases hf with hf | hf <;> cases hf
  | onRead hs =>
    rw [position_of_loop hs rfl] at hp
    rw [position_eq_stack rfl hp.tail]
    exact ⟨hp.of_onRead.1, fun h => absurd h hp.of_onRead.2.1⟩
  | onWrite hs => rcases hf with hf | hf <;> cases hf
  | enter h => exact huser h
  | call h => exact huser (Or.inl h)

omit [DecidableEq ι] [Fifo β UInt8] in
/-- When a functor closes the connection, its channel is not still to come up. -/
theorem Runs.not_handle {s u : Conn ι β} {a : Act} {w : WriteResult} {r : ReadResult}
    {f : Functor} (hu : Runs s a w r f u) (hp : Position s.channel s.position) (ha : s.Proper a)
    (hf : f.closes r = true) : .handle s.channel ∉ u.position := by
  cases hu with
  | functors hs =>
    rw [position_of_loop hs rfl] at hp
    obtain rfl := hp.of_functors
    rw [position_of_loop rfl rfl]
    simp
  | onClose hs h =>
    rw [position_of_loop hs rfl] at hp
    rw [position_eq_stack rfl hp.tail]
    exact hp.of_onClose.2
  | onError hs => cases hf
  | onRead hs =>
    rw [position_of_loop hs rfl] at hp
    rw [position_eq_stack rfl hp.tail]
    exact hp.of_onRead.2.2
  | onWrite hs => cases hf
  | enter => rcases ha with rfl | rfl | rfl <;> cases hf
  | call hs hc => exact absurd hf (by simp [Call.direct_closes hc])

omit [DecidableEq ι] [Fifo β UInt8] in
theorem Runs.mem_remove {s u : Conn ι β} {a : Act} {w : WriteResult} {r : ReadResult}
    {f : Functor} (hu : Runs s a w r f u) (hm : .remove ∈ s.stack) : .remove ∈ u.stack := by
  cases hu with
  | functors hs =>
    rw [hs] at hm
    simpa using hm
  | onClose hs | onError hs | onRead hs | onWrite hs =>
    rw [hs] at hm
    simpa using hm
  | enter | call => exact hm

omit [DecidableEq ι] [Fifo β UInt8] in
/-- While a channel is active and its turn is to come, it cannot be removed. -/
theorem Base.not_canRemove {s : Conn ι β} (hb : Base s) (h : .handle s.channel ∈ s.position) :
    ¬ s.CanRemove s.channel := by
  rintro ⟨-, -, hr⟩
  obtain ⟨he, hm⟩ := hb.active h
  rcases hr he with hc | hc
  · exact (hb.current hc).2 h
  · exact hc hm

/-- `remove` leaves the stack only when it has succeeded. -/
theorem Stepped.mem_remove {s t : Conn ι β} {a : Act}
    (h : Stepped s a t) (hm : .remove ∈ s.stack) :
    .remove ∈ t.stack ∨ s.CanRemove s.channel := by
  have hpop : ∀ {f : Frame ι} {rest : List (Frame ι)}, s.stack = f :: rest → f ≠ .remove →
      .remove ∈ rest := fun hs hf =>
    (List.mem_cons.mp (hs ▸ hm)).resolve_left fun he => hf he.symm
  cases h with
  | removed hs hr => exact Or.inr hr
  | poll hs =>
    rw [hs] at hm
    cases hm
  | ran hu hr hran =>
    obtain ⟨fs, hfs, -⟩ := hran.stack
    exact Or.inl (hfs ▸ List.mem_append_right _ (hu.mem_remove hm))
  | called hu hr ht => exact Or.inl (ht.spec.2.1 ▸ hu.spec.2.1 ▸ hm)
  | refused | stuck | queue | begin | write | defer => exact Or.inl hm
  | closeCallback hs => exact Or.inl (hpop hs (by simp))
  | handle hs => exact Or.inl (List.mem_append_right _ (hpop hs (by simp)))
  | skip hs hf => exact Or.inl (hpop hs (by rintro rfl; exact hf))
  | handled hs => exact Or.inl (hpop hs (by simp))
  | eventsDone hs => exact Or.inl (hpop hs (by simp))
  | doPendingFunctors hs => exact Or.inl (List.mem_cons_of_mem _ (hpop hs (by simp)))
  | ret hs => exact Or.inl (hpop hs (by simp))

omit [DecidableEq ι] [Fifo β UInt8] in
/-- While `loop` itself goes on, nothing is about to be removed. -/
theorem not_mem_remove_of_loop {s : Conn ι β} {f : Frame ι} {rest : List (Frame ι)}
    (hp : Position s.channel s.position) (hs : s.stack = f :: rest) (hf : f.isCallback = false) :
    .remove ∉ s.stack := by
  rw [position_of_loop hs hf] at hp
  intro hm
  have := hp.not_callback .remove (hs ▸ hm)
  cases this

omit [Fifo β UInt8] in
theorem DataStep.destroyed {s t : Conn ι β} (h : DataStep s t) (hm : .destroyed ∈ t.trace) :
    .destroyed ∈ s.trace := by
  obtain ⟨es, he, hd⟩ := h.trace
  rw [he] at hm
  rcases List.mem_append.mp hm with hm | hm
  · exact hm
  · cases hd _ hm

omit [Fifo β UInt8] in
theorem Called.destroyed {s u t : Conn ι β} {a : Act} {l : Bool} {w : WriteResult} {c : Call}
    (ht : Called u c t) (hu : Calls s a l w c u) (hm : .destroyed ∈ t.trace) :
    .destroyed ∈ s.trace := by
  have hut : u.trace = s.trace := by cases hu <;> rfl
  rw [← hut]
  cases ht with
  | data hd hr => exact hd.destroyed hm
  | shutdown hd hr => simpa using hd.destroyed hm
  | close hc hl hd hr => simpa using hd.destroyed hm

/-- Only `remove` destroys. -/
theorem destroyed_stepped {s t : Conn ι β} {a : Act} (h : Stepped s a t)
    (hm : .destroyed ∈ t.trace) :
    .destroyed ∈ s.trace ∨
      ∃ rest, s.stack = .remove :: rest ∧ t.toReactor = s.toReactor.drop s.channel := by
  have hadd : ∀ {es : List Effect}, t.trace = s.trace ++ es → .destroyed ∉ es →
      .destroyed ∈ s.trace := fun he hn => by
    rw [he] at hm
    exact (List.mem_append.mp hm).resolve_right hn
  cases h with
  | @removed w r rest hs => exact Or.inr ⟨rest, hs, rfl⟩
  | @ran _ w r f u _ hu hr hran =>
    left
    have htr : .destroyed ∈ u.trace → .destroyed ∈ s.trace := by cases hu <;> simp
    refine htr ?_
    cases hran with
    | data hd => exact hd.destroyed hm
    | user | remove => exact hm
    | message | up | destroyed | closed => simpa [emit, push, Conn.up, Conn.down] using hm
  | called hu hr ht => exact Or.inl (ht.destroyed hu hm)
  | poll | refused | stuck | handle | skip | handled | eventsDone | doPendingFunctors | ret
  | queue => exact Or.inl hm
  | closeCallback => exact Or.inl (hadd rfl (by simp))
  | begin => exact Or.inl (hadd rfl (by simp))
  | write => exact Or.inl (hadd rfl (by simp))
  | defer => exact Or.inl (hadd rfl (by simp))

/-! ### The channel of a closed connection -/

theorem runFunctor_closed {s t : Conn ι β} (hA : s.toReactor.Agree) {w : WriteResult}
    {r : ReadResult} {f : Functor} (hs : s.state = .kDisconnected)
    (hn : s.ch.events = kNoneEvent) (hstart : f ≠ .startReadInLoop)
    (hr : s.runFunctor w r f = .ok t) (h : Ran s r f t) :
    t.toReactor = s.toReactor ∨ f = .stopReadInLoop ∧ s.reading = true ∧
      t.toReactor = s.toReactor.setMask s.channel kNoneEvent := by
  cases h with
  | data hd hi =>
    by_cases hinert : Inert s f
    · exact Or.inl (hi hn hinert)
    cases f with
    | startReadInLoop => exact absurd rfl hstart
    | stopReadInLoop =>
      have hreading : s.reading = true := by simpa [Inert] using hinert
      simp only [runFunctor, stopReadInLoop, if_pos (Or.inl hreading),
        onChannel_eq hA (show Reactor.Op.disableReading ≠ .remove by simp)] at hr
      obtain rfl := Except.ok.inj hr
      refine Or.inr ⟨rfl, hreading, ?_⟩
      simp [Reactor.Op.mask, hn, kNoneEvent]
    | sendInLoop m => exact absurd hs hinert
    | _ => exact absurd trivial hinert
  | user | message | remove => exact Or.inl rfl
  | up hst => rw [hs] at hst; cases hst
  | destroyed hst => rw [hs] at hst; cases hst
  | closed hf hst => exact absurd hs hst.ne

/-- **What a step does to the channel of a closed connection**: nothing, an update by
`stopReadInLoop`, or its removal. -/
theorem closed_stepped {s t : Conn ι β} {a : Act} (hb : Base s) (hs : s.state = .kDisconnected)
    (hn : s.ch.events = kNoneEvent) (h : Stepped s a t)
    (hstart : s.runsFn a ≠ some .startReadInLoop) :
    Reactor.SameViews s.toReactor t.toReactor ∨
      (s.runsFn a = some .stopReadInLoop ∧ s.reading = true ∧
        t.toReactor = s.toReactor.setMask s.channel kNoneEvent) ∨
      ∃ rest, s.stack = .remove :: rest ∧ t.stack = rest ∧
        t.toReactor = s.toReactor.drop s.channel := by
  have hsame : t.toReactor = s.toReactor → Reactor.SameViews s.toReactor t.toReactor :=
    fun ht => ht ▸ .refl _
  cases h with
  | @ran _ w r f u _ hu hr hran =>
    have hstate : u.state = s.state := by cases hu <;> rfl
    have hreading : u.reading = s.reading := by cases hu <;> rfl
    have hch : u.ch = s.ch := by rw [ch, ch, hu.channel, hu.toReactor]
    have hfn : s.runsFn a = some f := by rw [runsFn, hu.runs_eq]; rfl
    have hrun := runFunctor_closed (hu.toReactor ▸ hb.agree) (hstate.trans hs) (hch ▸ hn)
      (fun hf => hstart (hf ▸ hfn)) hr hran
    rw [hreading, hu.toReactor, hu.channel] at hrun
    rcases hrun with ht | ⟨rfl, hrd, ht⟩
    · exact Or.inl (hsame ht)
    · exact Or.inr (Or.inl ⟨hfn, hrd, ht⟩)
  | called hu hr ht => exact Or.inl (hsame (ht.spec.2.2.trans hu.spec.2.2))
  | poll hs' hw hf =>
    have hv := (Reactor.fillActiveChannels_same hf).1
    exact Or.inl ⟨hv.fd, hv.events, hv.index, hv.addedToLoop, hv.channels, hv.epoll⟩
  | @removed w r rest hst => exact Or.inr (Or.inr ⟨rest, hst, rfl, rfl⟩)
  | handle => exact Or.inl (sameViews_enterChannel s _)
  | handled => exact Or.inl (Reactor.sameViews_setChan s.toReactor s.channel
      { s.ch with eventHandling := false } rfl rfl rfl rfl)
  | eventsDone =>
    exact Or.inl ⟨fun _ => rfl, fun _ => rfl, fun _ => rfl, fun _ => rfl, rfl, rfl⟩
  | refused | stuck | closeCallback | skip | doPendingFunctors | ret | queue | begin | write
  | defer => exact Or.inl (hsame rfl)

end Conn

end SimpleNet
