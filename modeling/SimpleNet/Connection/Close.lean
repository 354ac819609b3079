import SimpleNet.Connection.Down

/-!
# A connection is closed once

Runs in which other threads call everything but `shutdown()`, one access at a time.
`closed_once`: `handleClose` runs at most once, its assertion does not fail and
`closeCallback_` is called at most once, as long as the steps are `CloseOk`.

The invariant ties the registration to the state: while the channel is in the interest
set, the connection is live (`CloseInv.live`), and so is it when its channel comes up in
the active channels.  Four kinds of steps break it:

* a call of `forceClose` that tested `state_` before `handleClose` and writes it after
  (`forceClose_late`);
* `startReadInLoop` and `stopReadInLoop` on a connection that is not live, which register
  the channel again;
* `handleClose` on a channel that is not in the interest set, which its `disableAll` puts
  there;
* a dispatch of `POLLHUP` and `POLLPRI` without `POLLIN` where the read then finds the end
  of the stream.
-/

namespace SimpleNet

namespace Conn

/-- The step is no call of `shutdown()`. -/
def Act.noShutdown : Act → Bool
  | .call .shutdown _ | .offCall .shutdown | .begin _ .shutdown => false
  | _ => true

variable {ι β : Type}

/-- The step runs `handleClose` on a live connection. -/
def closing (s : Conn ι β) (a : Act) : Bool :=
  match s.runs a with
  | some (f, r) => f.closes r && decide s.state.Live
  | none => false

/-- Where a connection is closed once. -/
structure CloseOk (s : Conn ι β) (a : Act) : Prop where
  noShutdown : a.noShutdown = true
  proper : s.Proper a
  /-- a late write of `state_` does not find the connection disconnected -/
  write : s.writing a = .micro → s.state ≠ .kDisconnected
  startRead : s.runsFn a = some .startReadInLoop → s.state.Live
  stopRead : s.runsFn a = some .stopReadInLoop →
    s.state.Live ∨ s.reading = false ∨ s.ch.index = .kAdded
  /-- `handleClose` finds the channel in the interest set -/
  close : s.closing a = true → s.ch.index = .kAdded
  /-- after `POLLHUP` without `POLLIN`, no read finds the end of the stream -/
  read : s.runs a = some (.handleRead, .data []) → s.hup = false

instance (s : Conn ι β) (a : Act) : Decidable (CloseOk s a) :=
  decidable_of_iff (a.noShutdown = true ∧ s.Proper a ∧
      (s.writing a = .micro → s.state ≠ .kDisconnected) ∧
      (s.runsFn a = some .startReadInLoop → s.state.Live) ∧
      (s.runsFn a = some .stopReadInLoop →
        s.state.Live ∨ s.reading = false ∨ s.ch.index = .kAdded) ∧
      (s.closing a = true → s.ch.index = .kAdded) ∧
      (s.runs a = some (.handleRead, .data []) → s.hup = false))
    ⟨fun ⟨h1, h2, h3, h4, h5, h6, h7⟩ => ⟨h1, h2, h3, h4, h5, h6, h7⟩,
      fun ⟨h1, h2, h3, h4, h5, h6, h7⟩ => ⟨h1, h2, h3, h4, h5, h6, h7⟩⟩

/-- The connection was closed at most once. -/
structure ClosedOnce (s : Conn ι β) : Prop where
  handleClose : s.trace.count .handleClose ≤ 1
  asserted : s.aborted ≠ some .handleClose
  closeCallback : s.trace.count .closeCallback ≤ 1

variable [DecidableEq ι] [Fifo β UInt8]

/-- What the runs of `closed_once` keep. -/
structure CloseInv (s : Conn ι β) : Prop where
  base : Base s
  held : Held s
  phase : s.life.Phase
  asserted : s.aborted ≠ some .handleClose
  /-- a registered connection is live, or about to be removed -/
  live : s.ch.index = .kAdded → s.state.Live ∨ .remove ∈ s.stack
  /-- a connection whose channel is to come up is live, or about to be removed -/
  comes : .handle s.channel ∈ s.position → s.state.Live ∨ .remove ∈ s.stack
  /-- at the close test it is live -/
  tests : .onClose ∈ s.position → s.state.Live
  /-- at the read test it is live, or `POLLHUP` has closed it -/
  reads : .onRead ∈ s.position → s.state.Live ∨ s.hup = true

omit [DecidableEq ι] [Fifo β UInt8] in
theorem writing_of_noShutdown (s : Conn ι β) {a : Act} (h : a.noShutdown = true) :
    s.writing a ≠ .shutdown := by
  cases a with
  | call c w =>
    cases c with
    | shutdown => cases h
    | _ => simp [writing]
  | offCall c =>
    cases c with
    | shutdown => cases h
    | _ => simp [writing]
  | micro n =>
    simp only [writing]
    split <;> simp
  | _ => simp [writing]

omit [DecidableEq ι] [Fifo β UInt8] in
theorem CloseOk.writing {s : Conn ι β} {a : Act} (h : CloseOk s a)
    (hs : s.state = .kDisconnected) : s.writing a = .none := by
  cases hw : s.writing a with
  | none => rfl
  | shutdown => exact absurd hw (writing_of_noShutdown s h.noShutdown)
  | micro => exact absurd hs (h.write hw)

omit [DecidableEq ι] [Fifo β UInt8] in
/-- A functor leaves the channel of a connection alone that is neither live nor registered. -/
theorem CloseOk.inert {s u : Conn ι β} {a : Act} {w : WriteResult} {r : ReadResult} {f : Functor}
    (hok : CloseOk s a) (hh : Held s) (hu : Runs s a w r f u) (hl : ¬ s.state.Live)
    (hi : s.ch.index ≠ .kAdded) : Inert u f := by
  have hstate : u.state = s.state := by cases hu <;> rfl
  have hreading : u.reading = s.reading := by cases hu <;> rfl
  have hfn : s.runsFn a = some f := by rw [runsFn, hu.runs_eq]; rfl
  cases f with
  | startReadInLoop => exact absurd (hok.startRead hfn) hl
  | stopReadInLoop =>
    rcases hok.stopRead hfn with h | h | h
    · exact absurd h hl
    · exact hreading.trans h
    · exact absurd h hi
  | sendInLoop m =>
    have hne := hu.sendInLoop hh hok.proper
    refine hstate.trans ?_
    cases hs : s.state with
    | kDisconnected => rfl
    | kConnecting => exact absurd hs hne
    | kConnected => exact absurd (Or.inl hs) hl
    | kDisconnecting => exact absurd (Or.inr hs) hl
  | _ => trivial

omit [DecidableEq ι] [Fifo β UInt8] in
/-- A registered channel stays the channel of a live connection, or of one to be removed. -/
theorem registered_of_eq {s t : Conn ι β} (h : CloseInv s) (hi : t.ch.index = s.ch.index)
    (hl : s.state.Live → t.state.Live) (hm : .remove ∈ s.stack → .remove ∈ t.stack) :
    t.ch.index = .kAdded → t.state.Live ∨ .remove ∈ t.stack :=
  fun ht => (h.live (hi ▸ ht)).imp hl hm

omit [Fifo β UInt8] in
theorem registered_ran {s u t : Conn ι β} {a : Act} {w : WriteResult} {r : ReadResult}
    {f : Functor} (h : CloseInv s) (hok : CloseOk s a) (hu : Runs s a w r f u)
    (hran : Ran u r f t) : t.ch.index = .kAdded → t.state.Live ∨ .remove ∈ t.stack := by
  have hstate : u.state = s.state := by cases hu <;> rfl
  have hch : u.ch = s.ch := by rw [ch, ch, hu.channel, hu.toReactor]
  have hmem := hu.mem_remove
  cases hran with
  | data hd hi =>
    intro hidx
    by_cases hl : s.state.Live
    · exact Or.inl (hd.state.trans hstate ▸ hl)
    by_cases hm : .remove ∈ s.stack
    · exact Or.inr (hd.stack ▸ hmem hm)
    have hne : s.ch.index ≠ .kAdded := fun hs => (h.live hs).elim hl hm
    have hnone : u.ch.events = kNoneEvent := hch ▸ h.base.masked hne
    have hr' := hi hnone (hok.inert h.held hu hl hne)
    rw [ch, hd.channel, hr'] at hidx
    exact absurd (hch ▸ hidx) hne
  | user =>
    exact registered_of_eq h (congrArg _ hch) (fun hl => hstate ▸ hl) fun hm => by simp [hmem hm]
  | message =>
    exact registered_of_eq h (congrArg _ hch) (fun hl => hstate ▸ hl)
      fun hm => by simp [emit, push, hmem hm]
  | up => exact fun _ => Or.inl (Or.inl rfl)
  | destroyed => exact fun _ => Or.inr (by simp [Conn.down])
  | remove => exact fun _ => Or.inr (by simp)
  | closed hf hl =>
    intro hidx
    have hadd : s.ch.index = .kAdded := by
      refine hok.close ?_
      simp [closing, hu.runs_eq, hf, hstate ▸ hl]
    simp only [ch, Conn.down, Reactor.setMask_self] at hidx
    have hadd' : (u.chan u.channel).index = .kAdded := (congrArg Channel.index hch).trans hadd
    rw [hadd'] at hidx
    exact absurd hidx (by decide)

theorem registered_stepped {s t : Conn ι β} {a : Act} (h : CloseInv s) (hok : CloseOk s a)
    (hst : Stepped s a t) : t.ch.index = .kAdded → t.state.Live ∨ .remove ∈ t.stack := by
  cases hst with
  | ran hu hr hran => exact registered_ran h hok hu hran
  | @called _ l w c u _ hu hr ht =>
    have hstate : u.state = s.state := by cases hu <;> rfl
    refine registered_of_eq h ?_ ?_ ?_
    · rw [ch, ch, ht.spec.1, ht.spec.2.2, hu.spec.1, hu.spec.2.2]
    · intro hl
      cases ht with
      | data hd hr => exact hd.state.trans hstate ▸ hl
      | shutdown hd hr => exact Or.inr hd.state
      | close hf hl' hd hr => exact Or.inr hd.state
    · rw [ht.spec.2.1, hu.spec.2.1]
      exact id
  | poll hs hw hf =>
    refine registered_of_eq h ?_ id (fun hm => by rw [hs] at hm; cases hm)
    exact (Reactor.fillActiveChannels_same hf).1.index _
  | refused | stuck | queue | begin | defer => exact registered_of_eq h rfl id id
  | removed hs hr =>
    intro hidx
    simp [ch] at hidx
  | closeCallback hs => exact registered_of_eq h rfl id fun hm => by rw [hs] at hm; simpa using hm
  | @handle w r c rest hs =>
    refine registered_of_eq h ((sameViews_enterChannel s c).index _) id ?_
    intro hm
    rw [hs] at hm
    exact List.mem_append_right _ (by simpa using hm)
  | skip hs hf =>
    refine registered_of_eq h rfl id ?_
    intro hm
    rw [hs] at hm
    rcases List.mem_cons.mp hm with rfl | hm
    · exact hf.elim
    · exact hm
  | handled hs =>
    refine registered_of_eq h ?_ id fun hm => by rw [hs] at hm; simpa using hm
    simp [ch, Reactor.setChan]
  | eventsDone hs => exact registered_of_eq h rfl id fun hm => by rw [hs] at hm; simpa using hm
  | doPendingFunctors hs => exact registered_of_eq h rfl id fun hm => by rw [hs] at hm; simpa using hm
  | ret hs => exact registered_of_eq h rfl id fun hm => by rw [hs] at hm; simpa using hm
  | write hst =>
    obtain ⟨c, st, hm⟩ := h.base.threads _ _ (hst ▸ List.mem_cons_self)
    exact fun _ => Or.inl (setState_of_body hm)

/-- A test that a disconnecting functor is past keeps the connection live. -/
theorem live_of_mem {s t : Conn ι β} {a : Act} (hb : Base s) (hst : Stepped s a t) {f : Frame ι}
    (hf : f ∈ t.position) (hs : s.state.Live)
    (htest : f = .onClose ∨ f = .onRead ∧ s.hup = false) : t.state.Live := by
  apply live_stepped hb hst hs
  intro ht
  obtain ⟨w, r, g, u, hu, hg⟩ := disconnects_stepped hb hst hs.ne ht
  have hpos : t.position = u.position := by rcases hg with ⟨-, -, rfl⟩ | ⟨-, rfl⟩ <;> rfl
  rw [hpos] at hf
  obtain ⟨h1, h2⟩ := hu.past hb.position hb.untouched (hg.imp And.left And.left)
  rcases htest with rfl | ⟨rfl, hn⟩
  · exact h1 hf
  · rw [h2 hf] at hn
    cases hn

omit [DecidableEq ι] [Fifo β UInt8] in
/-- A channel whose turn comes belongs to a live connection. -/
theorem CloseInv.live_of_handle {s : Conn ι β} (h : CloseInv s) {rest : List (Frame ι)}
    (hs : s.stack = .handle s.channel :: rest) : s.state.Live := by
  refine (h.comes ?_).resolve_right (not_mem_remove_of_loop h.base.position hs rfl)
  rw [position_of_loop hs rfl]
  exact List.mem_cons_self

theorem comes_stepped {s t : Conn ι β} {a : Act} (h : CloseInv s) (hok : CloseOk s a)
    (hst : Stepped s a t) :
    .handle t.channel ∈ t.position → t.state.Live ∨ .remove ∈ t.stack := by
  rw [hst.channel]
  intro hf
  rcases mem_position_stepped h.base hst hf with hs | ⟨b, hb⟩ | ⟨evs, l, hs, hw, -, hstate, hact⟩ |
    ⟨rest, -, -, hg⟩
  · by_cases hrm : .remove ∈ s.stack
    · exact Or.inr ((hst.mem_remove hrm).resolve_right (h.base.not_canRemove hs))
    have hl := (h.comes hs).resolve_right hrm
    by_cases ht : t.state = .kDisconnected
    · obtain ⟨w, r, g, u, hu, ⟨-, -, rfl⟩ | ⟨hg, rfl⟩⟩ :=
        disconnects_stepped h.base hst hl.ne ht
      · exact Or.inr (by simp [Conn.down])
      · exact absurd hf (hu.not_handle h.base.position hok.proper hg)
    · exact Or.inl (live_stepped h.base hst hl ht)
  · cases hb
  · -- `poll` reports only registered channels, and nothing is on the stack
    rw [hstate]
    rcases Frame.mem_active.mp hact with ⟨c, hc, he⟩ | he | he
    · obtain rfl := Frame.handle.inj he
      obtain ⟨p, hp, hpc⟩ := List.mem_map.mp hc
      have hadd := (Reactor.epollWait_added h.base.agree hw hp).1
      rw [hpc] at hadd
      refine Or.inl ((h.live hadd).resolve_right ?_)
      intro hrm
      rw [hs] at hrm
      cases hrm
    · cases he
    · cases he
  · simp [Frame.guarded] at hg

theorem tests_stepped {s t : Conn ι β} {a : Act} (h : CloseInv s) (hst : Stepped s a t) :
    .onClose ∈ t.position → t.state.Live := by
  intro hf
  rcases mem_position_stepped h.base hst hf with hs | ⟨b, hb⟩ | ⟨evs, l, hs, hw, -, hstate, hact⟩ |
    ⟨rest, hs, hstate, -⟩
  · exact live_of_mem h.base hst hf (h.tests hs) (Or.inl rfl)
  · cases hb
  · rcases Frame.mem_active.mp hact with ⟨c, hc, he⟩ | he | he <;> cases he
  · exact hstate ▸ h.live_of_handle hs

theorem reads_stepped {s t : Conn ι β} {a : Act} (h : CloseInv s) (hst : Stepped s a t) :
    .onRead ∈ t.position → t.state.Live ∨ t.hup = true := by
  intro hf
  rcases mem_position_stepped h.base hst hf with hs | ⟨b, hb⟩ | ⟨evs, l, hs, hw, -, hstate, hact⟩ |
    ⟨rest, hs, hstate, -⟩
  · rw [hup_of_revents (hst.revents (hst.ne_poll hs))]
    cases hh : s.hup with
    | true => exact Or.inr rfl
    | false =>
      have hl := (h.reads hs).resolve_right (by simp [hh])
      exact Or.inl (live_of_mem h.base hst hf hl (Or.inr ⟨rfl, hh⟩))
  · cases hb
  · rcases Frame.mem_active.mp hact with ⟨c, hc, he⟩ | he | he <;> cases he
  · exact Or.inl (hstate ▸ h.live_of_handle hs)

omit [DecidableEq ι] [Fifo β UInt8] in
/-- `handleClose` runs only on a live connection. -/
theorem not_refused {s u : Conn ι β} {a : Act} {w : WriteResult} {r : ReadResult} {f : Functor}
    (h : CloseInv s) (hok : CloseOk s a) (hu : Runs s a w r f u) :
    ¬ Refused u r f .handleClose := by
  have hstate : u.state = s.state := by cases hu <;> rfl
  rintro (⟨he, -⟩ | ⟨-, hf, hne, hl⟩)
  · cases he
  rw [hstate] at hl
  have hruns := hu.runs_eq
  cases hu with
  | @functors w r f fs rest hs =>
    have hq := h.held f (Or.inr (Or.inl ⟨_, hs ▸ List.mem_cons_self, List.mem_cons_self⟩))
    cases f <;> first | exact hq | exact hne rfl | cases hf
  | onClose hs =>
    refine hl (h.tests ?_)
    rw [position_of_loop hs rfl]
    exact List.mem_cons_self
  | onError => cases hf
  | @onRead w r rest hs =>
    have hr : r = .data [] := by simpa [Functor.closes] using hf
    subst hr
    have hread := h.reads (by rw [position_of_loop hs rfl]; exact List.mem_cons_self)
    have hno := hok.read hruns
    rcases hread with hread | hread
    · exact hl hread
    · rw [hno] at hread
      cases hread
  | onWrite => cases hf
  | enter => rcases hok.proper with rfl | rfl | rfl <;> cases hf
  | call hs hc => exact absurd hf (by simp [Call.direct_closes hc])

theorem asserted_stepped {s t : Conn ι β} {a : Act} (h : CloseInv s) (hok : CloseOk s a)
    (hst : Stepped s a t) : t.aborted ≠ some .handleClose := by
  rcases hst.aborted with hab | ⟨w, r, f, u, e, hu, he, hab⟩ | ⟨w, r, rest, e, -, -, -, -, hne, hab⟩
  · rw [hab]
    exact h.asserted
  · intro heq
    obtain rfl := Option.some.inj (hab.symm.trans heq)
    exact not_refused h hok hu he
  · exact fun heq => hne (Option.some.inj (hab.symm.trans heq))

theorem closeInv_step {s t : Conn ι β} {a : Act} (h : CloseInv s)
    (hs : Steps.guarded CloseOk step s a = some t) : CloseInv t := by
  obtain ⟨hok, hs⟩ := Steps.guarded_eq_some.mp hs
  obtain ⟨-, hst⟩ := step_stepped h.base.agree hs
  exact ⟨base_stepped h.base hst, held_stepped h.base hok.proper hst h.held,
    phase_stepped h.base hok.writing hst h.phase, asserted_stepped h hok hst,
    registered_stepped h hok hst, comes_stepped h hok hst, tests_stepped h hst,
    reads_stepped h hst⟩

omit [DecidableEq ι] in
theorem closeInv_init {r : Reactor ι} {c : ι} (hr : Fresh r c) (mark : Nat) (hw wc : Bool) :
    CloseInv (init r c mark hw wc : Conn ι β) where
  base := base_init hr mark hw wc
  held f hf := by simp [Holds, init] at hf
  phase := phase_init r c mark hw wc
  asserted := by simp [init]
  live hi := by
    obtain ⟨fd, hfd⟩ := hr.chan
    simp [init, ch, hfd, Channel.new] at hi
  comes hm := by simp [init, Conn.position] at hm
  tests hm := by simp [init, Conn.position] at hm
  reads hm := by simp [init, Conn.position] at hm

/-- **A connection is closed once**, over all interleavings of the loop's steps with calls
of other threads whose steps are `CloseOk`. -/
theorem closed_once {r : Reactor ι} {c : ι} (hr : Fresh r c) (mark : Nat) (hw wc : Bool)
    {as : List Act} {t : Conn ι β}
    (hrun : Steps.run (Steps.guarded CloseOk step) (init r c mark hw wc) as = some t) :
    ClosedOnce t := by
  have h := Steps.run_invariant (fun _ _ _ h hs => closeInv_step h hs)
    (closeInv_init hr mark hw wc) hrun
  have hcount : ∀ {e : Effect}, e.isLife = true → t.life.log.count e = t.trace.count e :=
    fun he => List.count_filter he
  have hle : t.life.downs ≤ 1 := by
    rw [h.phase.downs]
    split <;> omega
  have h1 := h.phase.closes
  have h2 := h.phase.closeCallbacks
  simp only [Life.closes, Life.closeCallbacks] at h1 h2
  rw [hcount rfl] at h1
  rw [hcount rfl, hcount rfl] at h2
  exact ⟨by omega, h.asserted, by omega⟩

/-- A `forceClose` on another thread, one access at a time, and the server's `connectDestroyed`. -/
def forceClosed : List Act :=
  established ++ [.begin 0 .forceClose, .micro 0, .micro 0, .poll [(5, POLLIN)]] ++ goes 4 ++
    [.ret] ++ goes 7 ++ [.queue .connectDestroyed, .poll []] ++ goes 4

theorem closed_once_forceClose : ∃ t,
    Steps.run (Steps.guarded CloseOk step) alone forceClosed = some t ∧ ClosedOnce t := by
  have hrun : (Steps.run (Steps.guarded CloseOk step) alone forceClosed).isSome = true := by decide
  obtain ⟨t, ht⟩ := Option.isSome_iff_exists.mp hrun
  exact ⟨t, ht, closed_once fresh_alone 64 false true ht⟩

/-- Another thread tests `state_` in `forceClose`, the peer's close is handled, then the
thread goes on. -/
def lateForceClose : List Act :=
  established ++ [.begin 0 .forceClose, .poll [(5, POLLIN)]] ++ goes 4 ++ [.ret] ++ goes 1 ++
    [.micro 0, .micro 0] ++ goes 5 ++ [.ret] ++ goes 1

/-- `handleClose` runs again and `closeCallback_` is called twice. -/
theorem forceClose_late : ∃ t, Steps.run step alone lateForceClose = some t ∧
    t.trace.count .handleClose = 2 ∧ t.trace.count .closeCallback = 2 ∧ ¬ ClosedOnce t := by
  have hobs : (Steps.run step alone lateForceClose).any (fun t =>
      decide (t.trace.count .handleClose = 2 ∧ t.trace.count .closeCallback = 2)) = true := by
    decide
  obtain ⟨t, ht, hobs⟩ := (Option.any_eq_true _ _).mp hobs
  obtain ⟨h1, h2⟩ := of_decide_eq_true hobs
  refine ⟨t, ht, h1, h2, ?_⟩
  intro h
  have := h.handleClose
  omega

/-- Reading is stopped, then `forceClose`: the closed channel is registered with an empty
mask, and a `POLLHUP` runs `handleClose` again. -/
example : (Steps.run step alone
    ([.enter .connectEstablished (.wrote 0) (.data []), .call .stopRead (.wrote 0),
      .call .forceClose (.wrote 0), .ret, .poll []] ++ goes 3 ++ [.ret] ++ goes 2 ++
      [.poll [(5, POLLHUP)]] ++ goes 2)).map (fun t => t.aborted) = some (some .handleClose) := by
  decide

end Conn

end SimpleNet
