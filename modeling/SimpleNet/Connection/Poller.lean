import SimpleNet.Connection.Down
import SimpleNet.Connection.State

/-!
# A closed connection stays out of the poller

`stays_closed`: once `handleClose` or `connectDestroyed` has called `disableAll()`, no step
makes `events_` non-empty again, nor enters the channel's fd into the interest set or into
`channels_`; so `channel_->remove()` does not fail `isNoneEvent()`, the channel is not added
to the loop when the connection is destroyed, and no message is delivered after the down
callback.

`startReadInLoop` and `stopReadInLoop` look at `reading_` and at the channel's mask, and not
at `state_`: on a disconnected connection they update the channel, which enters it again
(`startRead_reenters`).  The other steps that are left out are the writes of `state_` over
`kDisconnected`, `connectDestroyed` on a connection that is not closed and cannot be, and a
read after `POLLHUP` in the same dispatch.
-/

namespace SimpleNet

namespace Conn

variable {ι β : Type} [DecidableEq ι] [Fifo β UInt8]

/-- The channel's fd in the interest set. -/
def registered (s : Conn ι β) : Option (Mask × ι) := s.epoll s.ch.fd

/-- The channel's fd in the poller's map. -/
def mapped (s : Conn ι β) : Option ι := s.channels s.ch.fd

/-- What a step from `s` to `t` leaves of a closed connection. -/
structure StaysClosed (s t : Conn ι β) : Prop where
  events : .disableAll ∈ s.trace → t.ch.events = kNoneEvent
  epoll : .disableAll ∈ s.trace → s.registered = none → t.registered = none
  channels : .disableAll ∈ s.trace → s.mapped = none → t.mapped = none
  /-- `channel_->remove()` -/
  remove : t.aborted ≠ some .removeNone
  /-- the channel's destructor -/
  destroyed : .destroyed ∈ t.trace → t.ch.addedToLoop = false
  /-- no message after the down callback -/
  messages : t.trace.Pairwise fun d e => d = .connectionCallback false → e ≠ .messageCallback

/-- `channel_->remove()` fails, but not in `isNoneEvent()`. -/
def Jammed (r : Reactor ι) (c : ι) : Prop := (r.chan c).events = kNoneEvent ∧ ¬ r.CanRemove c

instance (r : Reactor ι) (c : ι) : Decidable (Jammed r c) := inferInstanceAs (Decidable (_ ∧ _))

/-- The bytes that a step reads. -/
def received (s : Conn ι β) (a : Act) : List UInt8 :=
  match s.runs a with
  | some (.handleRead, .data bytes) => bytes
  | _ => []

/-- Where a closed connection stays out of the poller. -/
structure StaysClosedOk (s : Conn ι β) (a : Act) : Prop where
  proper : s.Proper a
  /-- no write of `state_` over `kDisconnected` -/
  write : s.writing a ≠ .none → s.state ≠ .kDisconnected
  startRead : s.runsFn a = some .startReadInLoop → s.state ≠ .kDisconnected
  stopRead : s.runsFn a = some .stopReadInLoop → s.state = .kDisconnected →
    s.reading = false ∨ s.ch.index = .kAdded
  destroy : s.runsFn a = some .connectDestroyed →
    s.state = .kConnecting ∨ s.state = .kDisconnecting → Jammed s.toReactor s.channel
  /-- after `POLLHUP` without `POLLIN`, no read finds data -/
  read : s.received a ≠ [] → s.hup = false

instance (s : Conn ι β) (a : Act) : Decidable (StaysClosedOk s a) :=
  decidable_of_iff (s.Proper a ∧ (s.writing a ≠ .none → s.state ≠ .kDisconnected) ∧
      (s.runsFn a = some .startReadInLoop → s.state ≠ .kDisconnected) ∧
      (s.runsFn a = some .stopReadInLoop → s.state = .kDisconnected →
        s.reading = false ∨ s.ch.index = .kAdded) ∧
      (s.runsFn a = some .connectDestroyed →
        s.state = .kConnecting ∨ s.state = .kDisconnecting → Jammed s.toReactor s.channel) ∧
      (s.received a ≠ [] → s.hup = false))
    ⟨fun ⟨h1, h2, h3, h4, h5, h6⟩ => ⟨h1, h2, h3, h4, h5, h6⟩,
      fun ⟨h1, h2, h3, h4, h5, h6⟩ => ⟨h1, h2, h3, h4, h5, h6⟩⟩

/-- What the runs of `stays_closed` keep. -/
structure ClosedInv (s : Conn ι β) : Prop where
  base : Base s
  held : Held s
  phase : s.life.Phase
  stalled : Stalled Jammed s
  events : s.state = .kDisconnected → s.ch.events = kNoneEvent
  destroyed : .destroyed ∈ s.trace → s.ch.index = .kNew ∧ s.ch.addedToLoop = false
  /-- a channel that is to come up on a closed connection is about to be removed, or has
  nothing to read -/
  comes : .handle s.channel ∈ s.position → s.state = .kDisconnected →
    .remove ∈ s.stack ∨ s.ch.revents.has (POLLIN ||| POLLPRI ||| POLLRDHUP) = false
  reads : .onRead ∈ s.position → s.state = .kDisconnected →
    s.hup = true ∨ s.ch.revents.has (POLLIN ||| POLLPRI ||| POLLRDHUP) = false
  messages : s.trace.Pairwise fun d e => d = .connectionCallback false → e ≠ .messageCallback

omit [DecidableEq ι] [Fifo β UInt8] in
theorem StaysClosedOk.writing {s : Conn ι β} {a : Act} (h : StaysClosedOk s a)
    (hs : s.state = .kDisconnected) : s.writing a = .none := by
  by_contra hw
  exact h.write hw hs

/-- What is left of a closed channel's registration by a step. -/
inductive Leaves (c : ι) (r : Reactor ι) : Reactor ι → Prop
  | same {r'} (h : Reactor.SameViews r r') : Leaves c r r'
  /-- an update takes it out of the interest set -/
  | unset (h : (r.chan c).index = .kAdded) : Leaves c r (r.setMask c kNoneEvent)
  | drop : Leaves c r (r.drop c)

namespace Leaves

variable {c : ι} {r r' : Reactor ι}

theorem events (h : Leaves c r r') (hn : (r.chan c).events = kNoneEvent) :
    (r'.chan c).events = kNoneEvent := by
  cases h with
  | same hv => exact (hv.events c).trans hn
  | unset => simp
  | drop => simpa using hn

theorem epoll (h : Leaves c r r') (hA : r.Agree) (hn : r.epoll (r.chan c).fd = none) :
    r'.epoll (r'.chan c).fd = none := by
  cases h with
  | same hv => rw [hv.fd, hv.epoll, hn]
  | unset hi =>
    have := (Reactor.viewsAgree_of_agree hA c).registered.mpr hi
    rw [hn] at this
    cases this
  | drop => simp [Reactor.drop]

theorem channels (h : Leaves c r r') (hA : r.Agree) (hn : r.channels (r.chan c).fd = none) :
    r'.channels (r'.chan c).fd = none := by
  cases h with
  | same hv => rw [hv.fd, hv.channels, hn]
  | unset hi =>
    have := (Reactor.viewsAgree_of_agree hA c).mapped.mpr (by simp [hi])
    rw [hn] at this
    cases this
  | drop => simp [Reactor.drop]

/-- A removed channel stays removed. -/
theorem removed (h : Leaves c r r')
    (hn : (r.chan c).index = .kNew ∧ (r.chan c).addedToLoop = false) :
    (r'.chan c).index = .kNew ∧ (r'.chan c).addedToLoop = false := by
  cases h with
  | same hv => exact ⟨(hv.index c).trans hn.1, (hv.addedToLoop c).trans hn.2⟩
  | unset hi => rw [hn.1] at hi; cases hi
  | drop => simp

end Leaves

theorem leaves_stepped {s t : Conn ι β} {a : Act} (h : ClosedInv s) (hok : StaysClosedOk s a)
    (hs : s.state = .kDisconnected) (hst : Stepped s a t) :
    Leaves s.channel s.toReactor t.toReactor := by
  rcases closed_stepped h.base hs (h.events hs) hst (fun hf => hok.startRead hf hs) with
    hv | ⟨hf, hreading, ht⟩ | ⟨rest, -, -, ht⟩
  · exact .same hv
  · refine ht ▸ .unset ((hok.stopRead hf hs).resolve_left ?_)
    simp [hreading]
  · exact ht ▸ .drop

/-! ### What a step keeps -/

theorem events_stepped {s t : Conn ι β} {a : Act} (h : ClosedInv s) (hok : StaysClosedOk s a)
    (hst : Stepped s a t) (ht : t.state = .kDisconnected) : t.ch.events = kNoneEvent := by
  by_cases hs : s.state = .kDisconnected
  · rw [ch, hst.channel]
    exact (leaves_stepped h hok hs hst).events (h.events hs)
  · obtain ⟨w, r, f, u, hu, ⟨-, -, rfl⟩ | ⟨-, rfl⟩⟩ := disconnects_stepped h.base hst hs ht
    · simp [ch, Conn.down]
    · simp [ch, Conn.down]

/-- A report for a channel that asks for nothing has nothing to read. -/
theorem has_of_within {m : Mask} (h : Flags.Within m (kNoneEvent ||| POLLHUP ||| POLLERR)) :
    m.has (POLLIN ||| POLLPRI ||| POLLRDHUP) = false := by
  rw [Mask.has, h.test_eq_zero (by decide)]
  rfl

theorem comes_closed {s t : Conn ι β} {a : Act} (h : ClosedInv s) (hok : StaysClosedOk s a)
    (hst : Stepped s a t) (hf : .handle t.channel ∈ t.position) (ht : t.state = .kDisconnected) :
    .remove ∈ t.stack ∨ t.ch.revents.has (POLLIN ||| POLLPRI ||| POLLRDHUP) = false := by
  rw [hst.channel] at hf
  by_cases hs : .handle s.channel ∈ s.position
  · by_cases hd : s.state = .kDisconnected
    · rw [hst.revents (hst.ne_poll hs)]
      exact (h.comes hs hd).imp_left fun hm =>
        (hst.mem_remove hm).resolve_right (h.base.not_canRemove hs)
    · obtain ⟨w, r, f, u, hu, ⟨-, -, rfl⟩ | ⟨hc, rfl⟩⟩ := disconnects_stepped h.base hst hd ht
      · exact Or.inl (by simp [Conn.down])
      · exact absurd hf (hu.not_handle h.base.position hok.proper hc)
  rcases mem_position_stepped h.base hst hf with hm | ⟨b, hb⟩ | ⟨evs, l, -, hw, hrev, hstate, hact⟩ |
    ⟨rest, -, -, hg⟩
  · exact absurd hm hs
  · cases hb
  · -- `poll` reports nothing to read for an empty mask
    right
    rcases Frame.mem_active.mp hact with ⟨c, hc, he⟩ | he | he
    · obtain rfl := Frame.handle.inj he
      have hwithin := (Reactor.epollWait_added h.base.agree hw (hrev _ hc)).2
      rw [show (s.chan s.channel).events = kNoneEvent from h.events (hstate ▸ ht)] at hwithin
      rw [ch, hst.channel]
      exact has_of_within hwithin
    · cases he
    · cases he
  · simp [Frame.guarded] at hg

theorem reads_closed {s t : Conn ι β} {a : Act} (h : ClosedInv s) (hst : Stepped s a t)
    (hf : .onRead ∈ t.position) (ht : t.state = .kDisconnected) :
    t.hup = true ∨ t.ch.revents.has (POLLIN ||| POLLPRI ||| POLLRDHUP) = false := by
  rcases mem_position_stepped h.base hst hf with hs | ⟨b, hb⟩ | ⟨evs, l, -, -, -, -, hact⟩ |
    ⟨rest, hs, hstate, -⟩
  · have hrev := hst.revents (hst.ne_poll hs)
    rw [hup_of_revents hrev, hrev]
    by_cases hd : s.state = .kDisconnected
    · exact h.reads hs hd
    · obtain ⟨w, r, f, u, hu, hg⟩ := disconnects_stepped h.base hst hd ht
      have hpos : t.position = u.position := by rcases hg with ⟨-, -, rfl⟩ | ⟨-, rfl⟩ <;> rfl
      rw [hpos] at hf
      exact Or.inl ((hu.past h.base.position h.base.untouched (hg.imp And.left And.left)).2 hf)
  · cases hb
  · rcases Frame.mem_active.mp hact with ⟨c, hc, he⟩ | he | he <;> cases he
  · have hmem : .handle s.channel ∈ s.position := by
      rw [position_of_loop hs rfl]
      exact List.mem_cons_self
    rw [hst.revents (hst.ne_poll hmem)]
    exact Or.inr ((h.comes hmem (hstate ▸ ht)).resolve_left
      (not_mem_remove_of_loop h.base.position hs rfl))

omit [DecidableEq ι] [Fifo β UInt8] in
/-- Data is read only while the connection is not closed. -/
theorem read_of_closed {s u : Conn ι β} {a : Act} {w : WriteResult} {bytes : List UInt8}
    (h : ClosedInv s) (hok : StaysClosedOk s a) (hu : Runs s a w (.data bytes) .handleRead u)
    (hb : bytes ≠ []) : s.state ≠ .kDisconnected := by
  intro hs
  have hhup := hok.read (by simpa [received, hu.runs_eq] using hb)
  cases hu with
  | functors hst =>
    exact h.held .handleRead (Or.inr (Or.inl ⟨_, hst ▸ List.mem_cons_self, List.mem_cons_self⟩))
  | onRead hst hrev =>
    rcases h.reads (by rw [position_of_loop hst rfl]; exact List.mem_cons_self) hs with hr | hr
    · rw [hhup] at hr
      cases hr
    · rw [hr] at hrev
      cases hrev
  | enter => rcases hok.proper with hp | hp | hp <;> cases hp

theorem messages_stepped {s t : Conn ι β} {a : Act} (h : ClosedInv s) (hok : StaysClosedOk s a)
    (hst : Stepped s a t) :
    t.trace.Pairwise fun d e => d = .connectionCallback false → e ≠ .messageCallback := by
  have hadd : ∀ es, t.trace = s.trace ++ es → .messageCallback ∉ es →
      t.trace.Pairwise fun d e => d = .connectionCallback false → e ≠ .messageCallback := by
    intro es he hn
    have hne : ∀ e ∈ es, e ≠ .messageCallback := fun e hm heq => hn (heq ▸ hm)
    rw [he, List.pairwise_append]
    exact ⟨h.messages, List.pairwise_of_forall_mem_list fun _ _ e hm _ => hne e hm,
      fun _ _ e hm _ => hne e hm⟩
  have hdata : ∀ {es : List Effect}, (∀ e ∈ es, e.isData = true) → .messageCallback ∉ es :=
    fun hd hm => by cases hd _ hm
  cases hst with
  | @ran _ w r f u _ hu hr hran =>
    obtain ⟨es, hes, hes'⟩ : ∃ es, u.trace = s.trace ++ es ∧ ∀ e ∈ es, e.isData = true := by
      cases hu with
      | call => exact ⟨[_], rfl, by simp [Effect.isData]⟩
      | _ => exact ⟨[], by simp, by simp⟩
    cases hran with
    | data hd =>
      obtain ⟨fs, hfs, hd'⟩ := hd.trace
      refine hadd (es ++ fs) (by rw [hfs, hes, List.append_assoc]) ?_
      simp [hdata hes', hdata hd']
    | user | remove => exact hadd _ hes (hdata hes')
    | up =>
      refine hadd (es ++ _) (by rw [Conn.up, hes, List.append_assoc]) ?_
      simp [hdata hes']
    | destroyed | closed =>
      refine hadd (es ++ _) (by rw [Conn.down, hes, List.append_assoc]) ?_
      simp [hdata hes']
    | message b bytes hbytes hne =>
      -- the connection was not reported down before
      subst hbytes
      have hnil : es = [] := by cases hu <;> simpa using hes
      have hs := read_of_closed h hok hu hne
      have hdown : .connectionCallback false ∉ s.trace := by
        have h1 := h.phase.downs
        rw [if_neg (show ¬ s.life.state = .kDisconnected from hs)] at h1
        rw [← List.count_eq_zero, ← h1]
        exact (List.count_filter (by rfl)).symm
      subst hnil
      simp only [push_trace, emit_trace, hes, List.append_nil, List.pairwise_append]
      refine ⟨h.messages, List.pairwise_singleton _ _, ?_⟩
      rintro d hd e - rfl
      exact absurd hd hdown
  | @called _ l w c u _ hu hr ht =>
    have hut : u.trace = s.trace := by cases hu <;> rfl
    cases ht with
    | data hd hr =>
      obtain ⟨fs, hfs, hd'⟩ := hd.trace
      exact hadd _ (hut ▸ hfs) (hdata hd')
    | shutdown hd hr | close hc hl hd hr =>
      obtain ⟨fs, hfs, hd'⟩ := hd.trace
      simp only [setState_trace, emit_trace, hut, List.append_assoc] at hfs
      exact hadd _ hfs (by simp [hdata hd'])
  | poll | refused | stuck | handle | skip | handled | eventsDone | doPendingFunctors | ret
  | queue => exact h.messages
  | removed | closeCallback | begin | write | defer => exact hadd _ rfl (by simp)

theorem closedInv_stepped {s t : Conn ι β} {a : Act} (h : ClosedInv s) (hok : StaysClosedOk s a)
    (hst : Stepped s a t) : ClosedInv t where
  base := base_stepped h.base hst
  held := held_stepped h.base hok.proper hst h.held
  phase := phase_stepped h.base hok.writing hst h.phase
  stalled := stalled_stepped (fun _ _ hj => hj.2) h.base hok.writing hok.destroy hst h.stalled
  events := events_stepped h hok hst
  destroyed hm := by
    rw [ch, hst.channel]
    rcases destroyed_stepped hst hm with hm | ⟨-, -, hdrop⟩
    · have hs : s.state = .kDisconnected := by
        by_contra hs
        exact (h.stalled hs).1 hm
      exact (leaves_stepped h hok hs hst).removed (h.destroyed hm)
    · simp [hdrop]
  comes := comes_closed h hok hst
  reads := reads_closed h hst
  messages := messages_stepped h hok hst

omit [DecidableEq ι] in
theorem closedInv_init {r : Reactor ι} {c : ι} (hr : Fresh r c) (mark : Nat) (hw wc : Bool) :
    ClosedInv (init r c mark hw wc : Conn ι β) where
  base := base_init hr mark hw wc
  held f hf := by simp [Holds, init] at hf
  phase := phase_init r c mark hw wc
  stalled _ := by simp [init]
  events hs := by simp [init] at hs
  destroyed hm := by simp [init] at hm
  comes hm := by simp [init, Conn.position] at hm
  reads hm := by simp [init, Conn.position] at hm
  messages := List.Pairwise.nil

/-- `channel_->remove()` of a closed connection passes `isNoneEvent()`. -/
theorem remove_passes {s t : Conn ι β} {a : Act} (h : ClosedInv s) (hab : s.aborted = none)
    (hst : Stepped s a t) : t.aborted ≠ some .removeNone := by
  rcases hst.aborted with ht | ⟨w, r, f, u, e, hu, he, ht⟩ | ⟨w, r, rest, e, -, hs, -, hnone, -, ht⟩
  · rw [ht, hab]
    simp
  · intro heq
    obtain rfl := Option.some.inj (ht.symm.trans heq)
    rcases he with ⟨he, -⟩ | ⟨he, -⟩ <;> cases he
  · intro heq
    refine hnone (Option.some.inj (ht.symm.trans heq)) ?_
    by_cases hd : s.state = .kDisconnected
    · exact h.events hd
    · obtain ⟨rest, -, -, hjam, -⟩ := (h.stalled hd).2 (hs ▸ List.mem_cons_self)
      exact hjam

theorem staysClosed_stepped {s t : Conn ι β} {a : Act} (h : ClosedInv s)
    (hab : s.aborted = none) (hok : StaysClosedOk s a) (hst : Stepped s a t) :
    StaysClosed s t := by
  have ht := closedInv_stepped h hok hst
  have hclosed : .disableAll ∈ s.trace → s.state = .kDisconnected := by
    intro hm
    by_contra hs
    have h1 := h.phase.disabled
    rw [h.phase.downs, if_neg (show ¬ s.life.state = .kDisconnected from hs)] at h1
    exact List.count_eq_zero.mp h1 (List.mem_filter.mpr ⟨hm, rfl⟩)
  have hleaves : .disableAll ∈ s.trace → Leaves s.channel s.toReactor t.toReactor := fun hm =>
    leaves_stepped h hok (hclosed hm) hst
  have hch : t.channel = s.channel := hst.channel
  refine ⟨?_, ?_, ?_, remove_passes h hab hst, fun hm => (ht.destroyed hm).2, ht.messages⟩
  · intro hm
    rw [ch, hch]
    exact (hleaves hm).events (h.events (hclosed hm))
  · intro hm hn
    rw [registered, ch, hch]
    exact (hleaves hm).epoll h.base.agree hn
  · intro hm hn
    rw [mapped, ch, hch]
    exact (hleaves hm).channels h.base.agree hn

/-- **A closed connection stays out of the poller**: it holds of every step of every run
whose steps are `StaysClosedOk`. -/
theorem stays_closed {r : Reactor ι} {c : ι} (hr : Fresh r c) (mark : Nat) (hw wc : Bool)
    {as : List Act} {a : Act} {s t : Conn ι β}
    (hrun : Steps.run (Steps.guarded StaysClosedOk step) (init r c mark hw wc) as = some s)
    (hstep : Steps.guarded StaysClosedOk step s a = some t) : StaysClosed s t := by
  have h : ClosedInv s := by
    refine Steps.run_invariant ?_ (closedInv_init hr mark hw wc) hrun
    intro u b v h hs
    obtain ⟨hok, hs⟩ := Steps.guarded_eq_some.mp hs
    exact closedInv_stepped h hok (step_stepped h.base.agree hs).2
  obtain ⟨hok, hs⟩ := Steps.guarded_eq_some.mp hstep
  obtain ⟨hab, hst⟩ := step_stepped h.base.agree hs
  exact staysClosed_stepped h hab hok hst

/-- The peer closes while a queued `send` and a queued `forceClose` wait. -/
def closedQueued : List Act :=
  established ++ [.offCall (.send ⟨0, [1]⟩), .offCall .forceClose, .poll [(5, POLLIN)]] ++ goes 4 ++
    [.ret] ++ goes 5

/-- The queued `send` runs on the closed connection. -/
theorem stays_closed_queued : ∃ s t : Conn Unit (List UInt8),
    Steps.run (Steps.guarded StaysClosedOk step) alone closedQueued = some s ∧
    Steps.guarded StaysClosedOk step s (.go (.wrote 0) (.data [])) = some t ∧
    .disableAll ∈ s.trace ∧ StaysClosed s t := by
  have hobs : (Steps.run (Steps.guarded StaysClosedOk step) alone closedQueued).any (fun s =>
      decide (.disableAll ∈ s.trace) &&
        (Steps.guarded StaysClosedOk step s (.go (.wrote 0) (.data []))).isSome) = true := by
    decide
  obtain ⟨s, hs, hobs⟩ := (Option.any_eq_true _ _).mp hobs
  obtain ⟨hm, hsome⟩ := Bool.and_eq_true_iff.mp hobs
  obtain ⟨t, ht⟩ := Option.isSome_iff_exists.mp hsome
  exact ⟨s, t, hs, ht, of_decide_eq_true hm, stays_closed fresh_alone 64 false true hs ht⟩

/-- The peer closes; the loop is in the down callback. -/
def closedDown : List Act := established ++ [.poll [(5, POLLIN)]] ++ goes 4

/-- `startRead` called there: the channel of the closed connection asks for events again. -/
theorem startRead_reenters : ∃ s t : Conn Unit (List UInt8),
    Steps.run step alone closedDown = some s ∧ step s (.call .startRead (.wrote 0)) = some t ∧
    s.registered = none ∧ t.registered = some (kReadEvent, ()) ∧ ¬ StaysClosed s t := by
  have hobs : (Steps.run step alone closedDown).any (fun s =>
      (step s (.call .startRead (.wrote 0))).any fun t => decide (.disableAll ∈ s.trace ∧
        s.registered = none ∧ t.registered = some (kReadEvent, ()))) = true := by decide
  obtain ⟨s, hs, hobs⟩ := (Option.any_eq_true _ _).mp hobs
  obtain ⟨t, ht, hobs⟩ := (Option.any_eq_true _ _).mp hobs
  obtain ⟨hm, h1, h2⟩ := of_decide_eq_true hobs
  refine ⟨s, t, hs, ht, h1, h2, ?_⟩
  intro h
  rw [h.epoll hm h1] at h2
  cases h2

end Conn

end SimpleNet
