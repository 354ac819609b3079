import SimpleNet.Connection.Step

/-!
# Where the loop is

What holds in every run of a connection, whatever its users do.

* The poller's views agree (`Base.agree`), and a channel that asks for something is in the
  interest set (`Base.masked`).
* Callbacks are nested on top of `loop`: below the frames left by callbacks the stack is
  one of a few positions of `loop` itself (`Position`, `position_step`).  So there is no
  dispatch left while functors run, and the connection's channel is dispatched at most
  once for each `poll`.
-/

namespace SimpleNet

open Function (update)

/-- The frame is left by a callback, and not by `loop`. -/
def Frame.isCallback {ι : Type} : Frame ι → Bool
  | .user | .closeCallback | .remove => true
  | _ => false

/-- The rest of `handleEventWithGuard`. -/
def Frame.guarded {ι : Type} : List (Frame ι) := [.onClose, .onError, .onRead, .onWrite, .handled]

/-- The rest of `loop` with the active channels `l` still to come. -/
def Frame.active {ι : Type} (l : List ι) : List (Frame ι) :=
  l.map .handle ++ [.eventsDone, .doPendingFunctors]

/-- The stacks of `loop` with no callback on top; `c` is the connection's channel. -/
inductive Position {ι : Type} (c : ι) : List (Frame ι) → Prop
  | idle : Position c []
  | functors (b : List Functor) : Position c [.functors b]
  | pending : Position c [.doPendingFunctors]
  | events (l : List ι) (hl : l.Nodup) : Position c (Frame.active l)
  | dispatch (ds : List (Frame ι)) (l : List ι) (hd : ds <:+ Frame.guarded) (hl : l.Nodup)
    (hc : c ∉ l) : Position c (ds ++ Frame.active l)

theorem Frame.mem_active {ι : Type} {f : Frame ι} {l : List ι} : f ∈ Frame.active l ↔
    (∃ c ∈ l, f = .handle c) ∨ f = .eventsDone ∨ f = .doPendingFunctors := by
  simp [Frame.active, eq_comm]

namespace Position

variable {ι : Type} {c : ι}

/-- The first frame of a position, and what is under it. -/
theorem cons_cases {f : Frame ι} {fs : List (Frame ι)} (h : Position c (f :: fs)) :
    ((∃ b, f = .functors b) ∨ f = .doPendingFunctors) ∧ fs = [] ∨
      f = .eventsDone ∧ fs = [.doPendingFunctors] ∨
      (∃ d l, f = .handle d ∧ (d :: l).Nodup ∧ fs = Frame.active l) ∨
      ∃ ds l, f :: ds <:+ Frame.guarded ∧ l.Nodup ∧ c ∉ l ∧ fs = ds ++ Frame.active l := by
  have hactive : ∀ l : List ι, l.Nodup → f :: fs = Frame.active l →
      f = .eventsDone ∧ fs = [.doPendingFunctors] ∨
        ∃ d l', f = .handle d ∧ (d :: l').Nodup ∧ fs = Frame.active l' := by
    intro l hl hg
    cases l with
    | nil => exact Or.inl (List.cons.inj hg)
    | cons d l => exact Or.inr ⟨d, l, (List.cons.inj hg).1, hl, (List.cons.inj hg).2⟩
  generalize hg : f :: fs = gs at h
  cases h with
  | idle => cases hg
  | functors b => exact Or.inl ⟨Or.inl ⟨b, (List.cons.inj hg).1⟩, (List.cons.inj hg).2⟩
  | pending => exact Or.inl ⟨Or.inr (List.cons.inj hg).1, (List.cons.inj hg).2⟩
  | events l hl =>
    rcases hactive l hl hg with h | h
    · exact Or.inr (Or.inl h)
    · exact Or.inr (Or.inr (Or.inl h))
  | dispatch ds l hd hl hc =>
    cases ds with
    | nil =>
      rcases hactive l hl hg with h | h
      · exact Or.inr (Or.inl h)
      · exact Or.inr (Or.inr (Or.inl h))
    | cons d ds =>
      obtain ⟨rfl, rfl⟩ := List.cons.inj hg
      exact Or.inr (Or.inr (Or.inr ⟨ds, l, hd, hl, hc, rfl⟩))

theorem tail {f : Frame ι} {fs : List (Frame ι)} (h : Position c (f :: fs)) : Position c fs := by
  rcases h.cons_cases with ⟨-, rfl⟩ | ⟨-, rfl⟩ | ⟨d, l, -, hl, rfl⟩ | ⟨ds, l, hd, hl, hc, rfl⟩
  · exact .idle
  · exact .pending
  · exact .events l (List.nodup_cons.mp hl).2
  · exact .dispatch ds l ((List.suffix_cons f ds).trans hd) hl hc

/-- No callback frame is part of a position. -/
theorem not_callback {fs : List (Frame ι)} (h : Position c fs) :
    ∀ f ∈ fs, f.isCallback = false := by
  have hactive : ∀ l : List ι, ∀ f ∈ Frame.active l, f.isCallback = false := by
    intro l f hf
    rcases Frame.mem_active.mp hf with ⟨d, -, rfl⟩ | rfl | rfl <;> rfl
  cases h with
  | idle => simp
  | functors b => simp [Frame.isCallback]
  | pending => simp [Frame.isCallback]
  | events l hl => exact hactive l
  | dispatch ds l hd hl hc =>
    intro f hf
    rcases List.mem_append.mp hf with hf | hf
    · have hg := hd.subset hf
      simp only [Frame.guarded, List.mem_cons, List.not_mem_nil, or_false] at hg
      rcases hg with rfl | rfl | rfl | rfl | rfl <;> rfl
    · exact hactive l f hf

theorem of_functors {b : List Functor} {fs : List (Frame ι)}
    (h : Position c (.functors b :: fs)) : fs = [] := by
  rcases h.cons_cases with ⟨-, rfl⟩ | ⟨he, -⟩ | ⟨d, l, he, -⟩ | ⟨ds, l, hd, -⟩
  · rfl
  · cases he
  · cases he
  · simp [Frame.guarded, List.suffix_cons_iff] at hd

theorem of_doPendingFunctors {fs : List (Frame ι)}
    (h : Position c (.doPendingFunctors :: fs)) : fs = [] := by
  rcases h.cons_cases with ⟨-, rfl⟩ | ⟨he, -⟩ | ⟨d, l, he, -⟩ | ⟨ds, l, hd, -⟩
  · rfl
  · cases he
  · cases he
  · simp [Frame.guarded, List.suffix_cons_iff] at hd

/-- When the connection's channel comes up, only other channels are left. -/
theorem of_handle {fs : List (Frame ι)} (h : Position c (.handle c :: fs)) :
    ∃ l : List ι, l.Nodup ∧ c ∉ l ∧ fs = Frame.active l := by
  rcases h.cons_cases with ⟨he | he, -⟩ | ⟨he, -⟩ | ⟨d, l, he, hl, rfl⟩ | ⟨ds, l, hd, -⟩
  · obtain ⟨b, he⟩ := he
    cases he
  · cases he
  · cases he
  · obtain rfl := Frame.handle.inj he
    exact ⟨l, (List.nodup_cons.mp hl).2, (List.nodup_cons.mp hl).1, rfl⟩
  · simp [Frame.guarded, List.suffix_cons_iff] at hd

/-- When a channel comes up, only channels are left. -/
theorem of_other {d : ι} {fs : List (Frame ι)} (h : Position c (.handle d :: fs)) :
    ∃ l : List ι, fs = Frame.active l := by
  rcases h.cons_cases with ⟨he | he, -⟩ | ⟨he, -⟩ | ⟨d, l, -, -, rfl⟩ | ⟨ds, l, hd, -⟩
  · obtain ⟨b, he⟩ := he
    cases he
  · cases he
  · cases he
  · exact ⟨l, rfl⟩
  · simp [Frame.guarded, List.suffix_cons_iff] at hd

/-- In the middle of `handleEventWithGuard`, only its later tests and other channels are
left. -/
theorem of_guarded {f : Frame ι} {fs : List (Frame ι)} (h : Position c (f :: fs))
    (hf : f ∈ Frame.guarded) :
    ∃ ds l, f :: ds <:+ Frame.guarded ∧ l.Nodup ∧ c ∉ l ∧ fs = ds ++ Frame.active l := by
  rcases h.cons_cases with ⟨he | he, -⟩ | ⟨rfl, -⟩ | ⟨d, l, rfl, -⟩ | h
  · obtain ⟨b, rfl⟩ := he
    simp [Frame.guarded] at hf
  · subst he
    simp [Frame.guarded] at hf
  · simp [Frame.guarded] at hf
  · simp [Frame.guarded] at hf
  · exact h

theorem of_onClose {fs : List (Frame ι)} (h : Position c (.onClose :: fs)) :
    .onClose ∉ fs ∧ .handle c ∉ fs := by
  obtain ⟨ds, l, hd, -, hc, rfl⟩ := h.of_guarded (by simp [Frame.guarded])
  simp only [Frame.guarded, List.suffix_cons_iff, List.cons.injEq, reduceCtorEq, false_and,
    true_and] at hd
  simp_all [Frame.mem_active]

theorem of_onRead {fs : List (Frame ι)} (h : Position c (.onRead :: fs)) :
    .onClose ∉ fs ∧ .onRead ∉ fs ∧ .handle c ∉ fs := by
  obtain ⟨ds, l, hd, -, hc, rfl⟩ := h.of_guarded (by simp [Frame.guarded])
  simp only [Frame.guarded, List.suffix_cons_iff, List.cons.injEq, reduceCtorEq, false_and,
    true_and, false_or] at hd
  simp_all [Frame.mem_active]

end Position

namespace Conn

variable {ι β : Type}

/-- What `loop` itself has left to do. -/
def position (s : Conn ι β) : List (Frame ι) := s.stack.dropWhile Frame.isCallback

theorem position_of_callback {s : Conn ι β} {f : Frame ι} {l : List (Frame ι)}
    (hs : s.stack = f :: l) (hf : f.isCallback = true) :
    s.position = l.dropWhile Frame.isCallback := by
  rw [position, hs, List.dropWhile_cons_of_pos hf]

theorem position_of_loop {s : Conn ι β} {f : Frame ι} {rest : List (Frame ι)}
    (hs : s.stack = f :: rest) (hf : f.isCallback = false) : s.position = f :: rest := by
  rw [position, hs, List.dropWhile_cons_of_neg (by simp [hf])]

/-- A position is its own position. -/
theorem dropWhile_of_position {c : ι} {fs : List (Frame ι)} (h : Position c fs) :
    fs.dropWhile Frame.isCallback = fs := by
  cases fs with
  | nil => rfl
  | cons f fs => exact List.dropWhile_cons_of_neg (by simp [h.not_callback f List.mem_cons_self])

theorem position_eq_stack {c : ι} {s : Conn ι β} {fs : List (Frame ι)} (hs : s.stack = fs)
    (h : Position c fs) : s.position = fs := by
  rw [position, hs, dropWhile_of_position h]

theorem position_of_stack {c : ι} {s : Conn ι β} {fs : List (Frame ι)} (hs : s.stack = fs)
    (h : Position c fs) : Position c s.position := by
  rw [position_eq_stack hs h]
  exact h

variable [DecidableEq ι]

/-! ### Functors and calls -/

theorem DataStep.change {s t : Conn ι β} (h : DataStep s t) :
    Reactor.Change s.channel s.toReactor t.toReactor := by
  rcases h.reactor with hr | ⟨m, hr⟩
  · exact hr ▸ .same (.refl _)
  · exact hr ▸ .mask m (.refl _)

theorem DataStep.position {s t : Conn ι β} (h : DataStep s t) : t.position = s.position := by
  rw [Conn.position, Conn.position, h.stack]

theorem Ran.channel {u t : Conn ι β} {r : ReadResult} {f : Functor} (h : Ran u r f t) :
    t.channel = u.channel := by
  cases h with
  | data hd => exact hd.channel
  | user | message | up | destroyed | remove | closed => rfl

theorem Ran.position {u t : Conn ι β} {r : ReadResult} {f : Functor} (h : Ran u r f t) :
    t.position = u.position := by
  cases h with
  | data hd => exact hd.position
  | user | message | up | destroyed | remove | closed => rfl

theorem Ran.change {u t : Conn ι β} {r : ReadResult} {f : Functor} (h : Ran u r f t) :
    Reactor.Change u.channel u.toReactor t.toReactor := by
  cases h with
  | data hd => exact hd.change
  | user | message | remove => exact .same (.refl _)
  | up => exact .mask _ (Reactor.sameViews_setChan u.toReactor u.channel
      { u.ch with tied := true } rfl rfl rfl rfl)
  | destroyed | closed => exact .mask _ (.refl _)

theorem Called.spec {u t : Conn ι β} {c : Call} (h : Called u c t) :
    t.channel = u.channel ∧ t.stack = u.stack ∧ t.toReactor = u.toReactor := by
  cases h with
  | data hd hr => exact ⟨hd.channel, hd.stack, hr⟩
  | shutdown hd hr => exact ⟨hd.channel, hd.stack, hr⟩
  | close hc hs hd hr => exact ⟨hd.channel, hd.stack, hr⟩

variable [Fifo β UInt8]

omit [DecidableEq ι] [Fifo β UInt8] in
theorem Runs.channel {s u : Conn ι β} {a : Act} {w : WriteResult} {r : ReadResult} {f : Functor}
    (h : Runs s a w r f u) : u.channel = s.channel := by
  cases h <;> rfl

omit [DecidableEq ι] [Fifo β UInt8] in
theorem Runs.toReactor {s u : Conn ι β} {a : Act} {w : WriteResult} {r : ReadResult} {f : Functor}
    (h : Runs s a w r f u) : u.toReactor = s.toReactor := by
  cases h <;> rfl

omit [DecidableEq ι] [Fifo β UInt8] in
theorem Calls.spec {s u : Conn ι β} {a : Act} {l : Bool} {w : WriteResult}
    {c : Call} (h : Calls s a l w c u) :
    u.channel = s.channel ∧ u.stack = s.stack ∧ u.toReactor = s.toReactor := by
  cases h <;> exact ⟨rfl, rfl, rfl⟩

/-! ### Steps -/

omit [Fifo β UInt8] in
theorem sameViews_enterChannel (s : Conn ι β) (c : ι) :
    Reactor.SameViews s.toReactor (s.enterChannel c) := by
  unfold enterChannel
  have h : Reactor.SameViews s.toReactor { s.toReactor with currentActiveChannel := some c } :=
    ⟨fun _ => rfl, fun _ => rfl, fun _ => rfl, fun _ => rfl, rfl, rfl⟩
  split
  · next hc =>
    subst hc
    exact h.trans (Reactor.sameViews_setChan _ _ { s.ch with eventHandling := true }
      rfl rfl rfl rfl)
  · exact h

theorem Stepped.channel {s t : Conn ι β} {a : Act} (h : Stepped s a t) :
    t.channel = s.channel := by
  cases h with
  | ran hu hr ht => exact ht.channel.trans hu.channel
  | called hu hr ht => exact ht.spec.1.trans hu.spec.1
  | poll | refused | removed | stuck | closeCallback | handle | skip | handled | eventsDone
  | doPendingFunctors | ret | queue | begin | write | defer => rfl

theorem Stepped.change {s t : Conn ι β} {a : Act} (h : Stepped s a t) :
    Reactor.Change s.channel s.toReactor t.toReactor := by
  cases h with
  | poll hs hw hf => exact .same ⟨(Reactor.fillActiveChannels_same hf).1.fd,
      (Reactor.fillActiveChannels_same hf).1.events, (Reactor.fillActiveChannels_same hf).1.index,
      (Reactor.fillActiveChannels_same hf).1.addedToLoop,
      (Reactor.fillActiveChannels_same hf).1.channels, (Reactor.fillActiveChannels_same hf).1.epoll⟩
  | ran hu hr ht => exact hu.channel ▸ hu.toReactor ▸ ht.change
  | called hu hr ht =>
    rw [ht.spec.2.2, hu.spec.2.2]
    exact .same (.refl _)
  | removed hs hr => exact .drop hr
  | handle => exact .same (sameViews_enterChannel s _)
  | handled => exact .same (Reactor.sameViews_setChan s.toReactor s.channel
      { s.ch with eventHandling := false } rfl rfl rfl rfl)
  | eventsDone => exact .same ⟨fun _ => rfl, fun _ => rfl, fun _ => rfl, fun _ => rfl, rfl, rfl⟩
  | refused | stuck | closeCallback | skip | doPendingFunctors | ret | queue | begin | write
  | defer => exact .same (.refl _)

omit [Fifo β UInt8] in
theorem DataStep.revents {s t : Conn ι β} (h : DataStep s t) : t.ch.revents = s.ch.revents := by
  rw [ch, ch, h.channel]
  rcases h.reactor with hr | ⟨m, hr⟩
  · rw [hr]
  · rw [hr, Reactor.setMask_self]

omit [Fifo β UInt8] in
theorem Ran.revents {u t : Conn ι β} {r : ReadResult} {f : Functor} (h : Ran u r f t) :
    t.ch.revents = u.ch.revents := by
  cases h with
  | data hd => exact hd.revents
  | user | message | remove => rfl
  | up => simp [ch, Conn.up, Reactor.setChan]
  | destroyed | closed => simp [ch, Conn.down]

/-- Only `poll` writes `revents_`. -/
theorem Stepped.revents {s t : Conn ι β} {a : Act} (h : Stepped s a t)
    (ha : ∀ evs, a ≠ .poll evs) : t.ch.revents = s.ch.revents := by
  cases h with
  | poll => exact absurd rfl (ha _)
  | ran hu hr ht =>
    rw [ht.revents, ch, ch, hu.channel, hu.toReactor]
  | called hu hr ht =>
    rw [ch, ch, ht.spec.1, ht.spec.2.2, hu.spec.1, hu.spec.2.2]
  | removed => simp [ch]
  | @handle w r c rest hs =>
    by_cases hc : c = s.channel <;> simp [ch, enterChannel, hc, Reactor.setChan]
  | handled => simp [ch, Reactor.setChan]
  | refused | stuck | closeCallback | skip | eventsDone | doPendingFunctors | ret | queue | begin
  | write | defer => rfl

/-- **How a step can fail**: a functor is refused, or a removal. -/
theorem Stepped.aborted {s t : Conn ι β} {a : Act} (h : Stepped s a t) :
    t.aborted = s.aborted ∨
      (∃ w r f u e, Runs s a w r f u ∧ Refused u r f e ∧ t.aborted = some e) ∨
      ∃ w r rest e, a = .go w r ∧ s.stack = .remove :: rest ∧ ¬ s.CanRemove s.channel ∧
        (e = .removeNone → s.ch.events ≠ kNoneEvent) ∧ e ≠ .handleClose ∧ t.aborted = some e := by
  cases h with
  | @ran _ w r f u _ hu hr hran =>
    have hua : u.aborted = s.aborted := by cases hu <;> rfl
    refine Or.inl (Eq.trans ?_ hua)
    cases hran with
    | data hd => exact hd.aborted
    | user | message | up | destroyed | remove | closed => rfl
  | @called _ l w c u _ hu hr ht =>
    have hua : u.aborted = s.aborted := by cases hu <;> rfl
    refine Or.inl (Eq.trans ?_ hua)
    cases ht with
    | data hd hr => exact hd.aborted
    | shutdown hd hr => exact hd.aborted
    | close hc hl hd hr => exact hd.aborted
  | refused hu he => exact Or.inr (Or.inl ⟨_, _, _, _, _, hu, he, rfl⟩)
  | stuck hs hr hnone he => exact Or.inr (Or.inr ⟨_, _, _, _, rfl, hs, hr, hnone, he, rfl⟩)
  | poll | removed | closeCallback | handle | skip | handled | eventsDone | doPendingFunctors
  | ret | queue | begin | write | defer => exact Or.inl rfl

omit [DecidableEq ι] [Fifo β UInt8] in
/-- The step of a functor takes its frame off the position. -/
theorem Runs.position {s u : Conn ι β} {a : Act} {w : WriteResult} {r : ReadResult} {f : Functor}
    (h : Runs s a w r f u) (hp : Position s.channel s.position) :
    Position s.channel u.position := by
  cases h with
  | functors hs =>
    rw [position_of_loop hs rfl] at hp
    obtain rfl := hp.of_functors
    exact .functors _
  | onClose hs | onError hs | onRead hs | onWrite hs =>
    rw [position_of_loop hs rfl] at hp
    exact position_of_stack rfl hp.tail
  | enter => exact hp
  | call => exact hp

/-- **`loop` goes from position to position.** -/
theorem position_step {s t : Conn ι β} {a : Act} (hA : s.toReactor.Agree) (h : Stepped s a t)
    (hp : Position s.channel s.position) : Position t.channel t.position := by
  rw [h.channel]
  have hpop : ∀ {f : Frame ι} {rest : List (Frame ι)} {u : Conn ι β}, s.stack = f :: rest →
      u.stack = rest → Position s.channel u.position := by
    intro f rest u hs hu
    cases hf : f.isCallback with
    | true =>
      rw [position, hu]
      exact position_of_callback hs hf ▸ hp
    | false =>
      rw [position_of_loop hs hf] at hp
      exact position_of_stack hu hp.tail
  cases h with
  | @poll evs l r hs hw hf =>
    have hact : r.activeChannels = l.map Prod.snd := by
      simpa using (Reactor.fillActiveChannels_same hf).2.1
    have hev : Position s.channel (Frame.active r.activeChannels) :=
      .events _ (hact ▸ Reactor.epollWait_nodup hA hw)
    exact position_of_stack rfl hev
  | ran hu hr ht => exact ht.position ▸ hu.position hp
  | called hu hr ht =>
    rw [position, ht.spec.2.1, hu.spec.2.1]
    exact hp
  | refused | stuck | queue | begin | write | defer => exact hp
  | removed hs => exact hpop hs rfl
  | closeCallback hs => exact hpop hs rfl
  | skip hs => exact hpop hs rfl
  | handled hs => exact hpop hs rfl
  | eventsDone hs => exact hpop hs rfl
  | ret hs => exact hpop hs rfl
  | @handle w r c rest hs =>
    have hp' := hp
    rw [position_of_loop hs rfl] at hp'
    by_cases hc : c = s.channel
    · subst hc
      obtain ⟨l, hl, hcl, rfl⟩ := hp'.of_handle
      have hd : Position s.channel (Frame.guarded ++ Frame.active l) :=
        .dispatch _ l (List.suffix_refl _) hl hcl
      exact position_of_stack (by rw [if_pos rfl]; rfl) hd
    · rw [position_of_callback (f := .user) (l := rest)
        (by rw [if_neg hc]; rfl) rfl, dropWhile_of_position hp'.tail]
      exact hp'.tail
  | doPendingFunctors hs =>
    rw [position_of_loop hs rfl] at hp
    obtain rfl := hp.of_doPendingFunctors
    exact .functors _

/-! ### Dispatch -/

/-- `POLLHUP` without `POLLIN`: `handleEventWithGuard` calls `closeCallback_`. -/
def hup (s : Conn ι β) : Bool := s.ch.revents.has POLLHUP && !s.ch.revents.has POLLIN

omit [DecidableEq ι] [Fifo β UInt8] in
theorem hup_of_revents {s t : Conn ι β} (h : t.ch.revents = s.ch.revents) : t.hup = s.hup := by
  rw [hup, hup, h]

/-- No user code runs before the close test of the channel, nor before its read test unless
`POLLHUP` has closed the connection. -/
def Untouched (s : Conn ι β) : Prop :=
  .onClose ∈ s.stack ∨ .onRead ∈ s.stack ∧ s.hup = false → ∀ f ∈ s.stack, f.isCallback = false

omit [DecidableEq ι] [Fifo β UInt8] in
theorem Untouched.of_subset {s t : Conn ι β} (h : Untouched s) (hs : t.stack ⊆ s.stack)
    (hh : t.hup = s.hup) : Untouched t := by
  intro hm f hf
  refine h ?_ f (hs hf)
  rw [hh] at hm
  exact hm.imp (@hs _) (And.imp_left (@hs _))

omit [DecidableEq ι] [Fifo β UInt8] in
theorem Untouched.not_mem {s : Conn ι β} (h : Untouched s) {f : Frame ι} (hf : f ∈ s.stack)
    (hc : f.isCallback = true) : .onClose ∉ s.stack ∧ (.onRead ∈ s.stack → s.hup = true) := by
  have hno : ¬ (.onClose ∈ s.stack ∨ .onRead ∈ s.stack ∧ s.hup = false) := fun hm => by
    rw [h hm f hf] at hc
    cases hc
  refine ⟨fun hm => hno (Or.inl hm), ?_⟩
  intro hm
  cases hh : s.hup with
  | true => rfl
  | false => exact absurd (Or.inr ⟨hm, hh⟩) hno

omit [DecidableEq ι] [Fifo β UInt8] in
theorem untouched_of_not_mem {s : Conn ι β} (h1 : .onClose ∉ s.stack)
    (h2 : .onRead ∈ s.stack → s.hup = true) : Untouched s := by
  rintro (hm | ⟨hm, hh⟩)
  · exact absurd hm h1
  · rw [h2 hm] at hh
    cases hh

omit [Fifo β UInt8] in
/-- A functor leaves callbacks on the stack. -/
theorem Ran.stack {u t : Conn ι β} {r : ReadResult} {f : Functor} (h : Ran u r f t) :
    ∃ fs, t.stack = fs ++ u.stack ∧ ∀ g ∈ fs, g.isCallback = true := by
  cases h with
  | data hd => exact ⟨[], hd.stack, by simp⟩
  | user | message | up => exact ⟨[.user], rfl, by simp [Frame.isCallback]⟩
  | destroyed => exact ⟨[.user, .remove], rfl, by simp [Frame.isCallback]⟩
  | remove => exact ⟨[.remove], rfl, by simp [Frame.isCallback]⟩
  | closed => exact ⟨[.user, .closeCallback], rfl, by simp [Frame.isCallback]⟩

omit [Fifo β UInt8] in
theorem Ran.mem_stack {u t : Conn ι β} {r : ReadResult} {f : Functor} (h : Ran u r f t)
    {g : Frame ι} (hg : g.isCallback = false) (hm : g ∈ t.stack) : g ∈ u.stack := by
  obtain ⟨fs, hfs, hc⟩ := h.stack
  rw [hfs] at hm
  rcases List.mem_append.mp hm with hm | hm
  · rw [hc g hm] at hg
    cases hg
  · exact hm

/-- `handleError` and `handleWrite` call no user code. -/
theorem stack_of_onError {s t : Conn ι β} (hA : s.toReactor.Agree) {w : WriteResult}
    {r : ReadResult} {f : Functor} (hf : f = .handleError ∨ f = .handleWrite)
    (h : s.runFunctor w r f = .ok t) : t.stack = s.stack := by
  rcases hf with rfl | rfl
  · exact Except.ok.inj h ▸ rfl
  · obtain ⟨v, hv, hd⟩ := dataStep_handleWrite hA w
    obtain rfl := Except.ok.inj (hv.symm.trans h)
    exact hd.stack

theorem untouched_stepped {s t : Conn ι β} {a : Act} (hA : s.toReactor.Agree)
    (hp : Position s.channel s.position) (h : Stepped s a t) (hu : Untouched s) :
    Untouched t := by
  have hrev : (∀ evs, a ≠ .poll evs) → t.hup = s.hup := fun ha => hup_of_revents (h.revents ha)
  have hsame : t.hup = s.hup → t.stack = s.stack → Untouched t :=
    fun hh hs => hu.of_subset (by rw [hs]; exact List.Subset.refl _) hh
  have hpop : ∀ {f : Frame ι} {rest : List (Frame ι)}, t.hup = s.hup → s.stack = f :: rest →
      t.stack = rest → Untouched t := fun {f rest} hh hs ht =>
    hu.of_subset (by rw [hs, ht]; exact List.subset_cons_self f rest) hh
  cases h with
  | poll hs => exact untouched_of_not_mem (by simp) (by simp)
  | @ran _ w r f u _ hur hr hran =>
    have hA' : u.toReactor.Agree := hur.toReactor ▸ hA
    have hmem : ∀ {g : Frame ι}, g.isCallback = false → g ∈ t.stack → g ∈ u.stack := hran.mem_stack
    have huser : (s.inUser = true ∨ s.stack = []) → u.stack = s.stack → t.hup = s.hup →
        Untouched t := by
      intro hs hus hh
      rw [hus] at hmem
      rcases hs with hs | hs
      · obtain ⟨rest, hs⟩ := inUser_iff.mp hs
        obtain ⟨h1, h2⟩ := hu.not_mem (f := .user) (hs ▸ List.mem_cons_self) rfl
        exact untouched_of_not_mem (fun hm => h1 (hmem rfl hm)) fun hm => hh ▸ h2 (hmem rfl hm)
      · rw [hs] at hmem
        exact untouched_of_not_mem (fun hm => nomatch hmem rfl hm) fun hm => nomatch hmem rfl hm
    cases hur with
    | functors hs =>
      rw [position_of_loop hs rfl] at hp
      obtain rfl := hp.of_functors
      exact untouched_of_not_mem (fun hm => by simpa using hmem rfl hm)
        fun hm => by simpa using hmem rfl hm
    | onClose hs hc =>
      rw [position_of_loop hs rfl] at hp
      exact untouched_of_not_mem (fun hm => hp.of_onClose.1 (hmem rfl hm))
        fun _ => (hrev (by simp)).trans hc
    | onError hs => exact hpop (hrev (by simp)) hs (stack_of_onError hA' (Or.inl rfl) hr)
    | onRead hs =>
      rw [position_of_loop hs rfl] at hp
      exact untouched_of_not_mem (fun hm => hp.of_onRead.1 (hmem rfl hm))
        fun hm => absurd (hmem rfl hm) hp.of_onRead.2.1
    | onWrite hs => exact hpop (hrev (by simp)) hs (stack_of_onError hA' (Or.inr rfl) hr)
    | enter hs => exact huser hs rfl (hrev (by simp))
    | call hs => exact huser (Or.inl hs) rfl (hrev (by simp))
  | called hc hr ht =>
    refine hsame (hrev ?_) (ht.spec.2.1.trans hc.spec.2.1)
    cases hc <;> simp
  | refused hur =>
    refine hsame (hrev ?_) rfl
    cases hur <;> simp
  | stuck | queue | begin | write | defer => exact hsame (hrev (by simp)) rfl
  | removed hs => exact hpop (hrev (by simp)) hs rfl
  | closeCallback hs => exact hpop (hrev (by simp)) hs rfl
  | skip hs => exact hpop (hrev (by simp)) hs rfl
  | handled hs => exact hpop (hrev (by simp)) hs rfl
  | eventsDone hs => exact hpop (hrev (by simp)) hs rfl
  | ret hs => exact hpop (hrev (by simp)) hs rfl
  | doPendingFunctors hs =>
    rw [position_of_loop hs rfl] at hp
    obtain rfl := hp.of_doPendingFunctors
    exact untouched_of_not_mem (by simp) (by simp)
  | @handle w r c rest hs =>
    rw [position_of_loop hs rfl] at hp
    by_cases hc : c = s.channel
    · intro _ f hf
      simp only [if_pos hc] at hf
      rcases List.mem_append.mp hf with hf | hf
      · simp only [List.mem_cons, List.not_mem_nil, or_false] at hf
        rcases hf with rfl | rfl | rfl | rfl | rfl <;> rfl
      · exact hp.not_callback f (List.mem_cons_of_mem _ hf)
    · obtain ⟨l, rfl⟩ := hp.of_other
      exact untouched_of_not_mem (by simp [hc, Frame.mem_active]) (by simp [hc, Frame.mem_active])

/-! ### The base invariant -/

/-- The turn of no channel comes up, and the events are not over. -/
structure Stays (s t : Conn ι β) : Prop where
  mem : ∀ f ∈ t.position, f ∈ s.position ∨ ∃ b, f = .functors b
  eventsDone : .eventsDone ∈ s.position → .eventsDone ∈ t.position
  current : t.currentActiveChannel = s.currentActiveChannel
  active : t.activeChannels = s.activeChannels
  eventHandling : t.eventHandling = s.eventHandling

omit [DecidableEq ι] [Fifo β UInt8] in
theorem stays_of_position {s t : Conn ι β} (hp : t.position = s.position)
    (hc : t.currentActiveChannel = s.currentActiveChannel)
    (ha : t.activeChannels = s.activeChannels) (he : t.eventHandling = s.eventHandling) :
    Stays s t :=
  ⟨fun _ h => Or.inl (hp ▸ h), fun h => hp ▸ h, hc, ha, he⟩

omit [DecidableEq ι] [Fifo β UInt8] in
/-- A frame other than `eventsDone` is taken off the stack. -/
theorem stays_of_pop {s t : Conn ι β} {f : Frame ι} {rest : List (Frame ι)}
    (hp : Position s.channel s.position) (hs : s.stack = f :: rest) (hf : f ≠ .eventsDone)
    (ht : t.stack = rest) (hc : t.currentActiveChannel = s.currentActiveChannel)
    (ha : t.activeChannels = s.activeChannels) (he : t.eventHandling = s.eventHandling) :
    Stays s t := by
  cases hcb : f.isCallback with
  | true =>
    refine stays_of_position ?_ hc ha he
    rw [position_of_callback hs hcb, position, ht]
  | false =>
    rw [position_of_loop hs hcb] at hp
    have hpos : t.position = rest := position_eq_stack ht hp.tail
    refine ⟨?_, ?_, hc, ha, he⟩
    · intro g h
      rw [position_of_loop hs hcb]
      exact Or.inl (List.mem_cons_of_mem _ (hpos ▸ h))
    · intro h
      rw [position_of_loop hs hcb] at h
      rw [hpos]
      exact (List.mem_cons.mp h).resolve_left fun heq => hf heq.symm

omit [DecidableEq ι] [Fifo β UInt8] in
/-- The loop goes on to functors. -/
theorem stays_of_functors {s t : Conn ι β} {f : Frame ι} {b : List Functor}
    (hs : s.position = [f]) (hf : f ≠ .eventsDone) (ht : t.stack = [.functors b])
    (hc : t.currentActiveChannel = s.currentActiveChannel)
    (ha : t.activeChannels = s.activeChannels) (he : t.eventHandling = s.eventHandling) :
    Stays s t := by
  have hpos : t.position = [.functors b] := position_of_loop ht rfl
  refine ⟨?_, ?_, hc, ha, he⟩
  · intro g h
    rw [hpos] at h
    exact Or.inr ⟨b, List.mem_singleton.mp h⟩
  · intro h
    rw [hs] at h
    exact absurd (List.mem_singleton.mp h).symm hf

omit [DecidableEq ι] [Fifo β UInt8] in
theorem Runs.stays {s u : Conn ι β} {a : Act} {w : WriteResult} {r : ReadResult} {f : Functor}
    (h : Runs s a w r f u) (hp : Position s.channel s.position) : Stays s u := by
  cases h with
  | functors hs =>
    have hp' := hp
    rw [position_of_loop hs rfl] at hp'
    obtain rfl := hp'.of_functors
    exact stays_of_functors (position_of_loop hs rfl) (by simp) rfl rfl rfl rfl
  | onClose hs | onError hs | onRead hs | onWrite hs =>
    exact stays_of_pop hp hs (by simp) rfl rfl rfl rfl
  | enter => exact stays_of_position rfl rfl rfl rfl
  | call => exact stays_of_position rfl rfl rfl rfl

omit [Fifo β UInt8] in
theorem DataStep.stays {s t : Conn ι β} (h : DataStep s t) : Stays s t := by
  rcases h.reactor with hr | ⟨m, hr⟩
  · exact stays_of_position h.position (by rw [hr]) (by rw [hr]) (by rw [hr])
  · exact stays_of_position h.position (by rw [hr]; rfl) (by rw [hr]; rfl) (by rw [hr]; rfl)

omit [Fifo β UInt8] in
theorem Ran.stays {u t : Conn ι β} {r : ReadResult} {f : Functor} (h : Ran u r f t) :
    Stays u t := by
  cases h with
  | data hd => exact hd.stays
  | user | message | up | destroyed | remove | closed => exact stays_of_position rfl rfl rfl rfl

omit [DecidableEq ι] [Fifo β UInt8] in
theorem Stays.handle {s t : Conn ι β} (h : Stays s t) {c : ι} (hc : .handle c ∈ t.position) :
    .handle c ∈ s.position := by
  rcases h.mem _ hc with hc | ⟨b, hb⟩
  · exact hc
  · cases hb

omit [DecidableEq ι] [Fifo β UInt8] in
theorem Stays.trans {s t u : Conn ι β} (h : Stays s t) (g : Stays t u) : Stays s u :=
  ⟨fun f hf => (g.mem f hf).elim (h.mem f) Or.inr, fun he => g.eventsDone (h.eventsDone he),
    g.current.trans h.current, g.active.trans h.active, g.eventHandling.trans h.eventHandling⟩

omit [Fifo β UInt8] in
theorem Ran.threads {u t : Conn ι β} {r : ReadResult} {f : Functor} (h : Ran u r f t) :
    t.threads = u.threads := by
  cases h with
  | data hd => exact hd.threads
  | user | message | up | destroyed | remove | closed => rfl

omit [Fifo β UInt8] in
theorem Called.threads {u t : Conn ι β} {c : Call} (h : Called u c t) :
    t.threads = u.threads := by
  cases h with
  | data hd hr => exact hd.threads
  | shutdown hd hr => exact hd.threads
  | close hc hs hd hr => exact hd.threads

/-- What the other threads still have to do is part of public functions. -/
def Public (s : Conn ι β) : Prop := ∀ n, ∀ m ∈ s.threads n, ∃ c st, m ∈ Call.body st c

theorem public_stepped {s t : Conn ι β} {a : Act} (hp : Public s) (h : Stepped s a t) :
    Public t := by
  have hupd : ∀ {n : Nat} {ms : List Micro}, (∀ m ∈ ms, ∃ c st, m ∈ Call.body st c) →
      ∀ k, ∀ m ∈ update s.threads n ms k, ∃ c st, m ∈ Call.body st c := by
    intro n ms hms k m hm
    by_cases hk : k = n
    · subst hk
      rw [Function.update_self] at hm
      exact hms m hm
    · rw [Function.update_of_ne hk] at hm
      exact hp k m hm
  cases h with
  | @ran _ w r f u _ hu hr ht | @called _ l w c u _ hu hr ht =>
    have hs : u.threads = s.threads := by cases hu <;> rfl
    unfold Public
    rw [ht.threads, hs]
    exact hp
  | poll | refused | removed | stuck | closeCallback | handle | skip | handled | eventsDone
  | doPendingFunctors | ret | queue => exact hp
  | begin hs => exact hupd fun m hm => ⟨_, _, hm⟩
  | write hs => exact hupd fun m hm => hp _ m (hs ▸ List.mem_cons_of_mem _ hm)
  | defer hs => exact hupd fun m hm => hp _ m (hs ▸ List.mem_cons_of_mem _ hm)

/-- What holds in every run. -/
structure Base (s : Conn ι β) : Prop where
  agree : s.toReactor.Agree
  position : Position s.channel s.position
  masked : s.toReactor.Masked s.channel
  /-- `currentActiveChannel_` is the connection's only after its turn has come -/
  current : s.currentActiveChannel = some s.channel →
    .eventsDone ∈ s.position ∧ .handle s.channel ∉ s.position
  /-- a channel whose turn is to come is active -/
  active : .handle s.channel ∈ s.position →
    s.eventHandling = true ∧ s.channel ∈ s.activeChannels
  threads : Public s
  untouched : Untouched s

theorem base_of_stays {s t : Conn ι β} {a : Act} (hb : Base s) (h : Stepped s a t)
    (hs : Stays s t) : Base t where
  agree := h.change.agree hb.agree
  position := position_step hb.agree h hb.position
  masked := h.channel ▸ h.change.masked hb.masked
  current hc := by
    rw [h.channel, hs.current] at hc
    rw [h.channel]
    obtain ⟨h1, h2⟩ := hb.current hc
    exact ⟨hs.eventsDone h1, fun h3 => h2 (hs.handle h3)⟩
  active hc := by
    rw [h.channel] at hc ⊢
    rw [hs.eventHandling, hs.active]
    exact hb.active (hs.handle hc)
  threads := public_stepped hb.threads h
  untouched := untouched_stepped hb.agree hb.position h hb.untouched

/-- Every step but three leaves the loop where it is. -/
theorem Stepped.stays {s t : Conn ι β} {a : Act} (h : Stepped s a t)
    (hp : Position s.channel s.position) : Stays s t ∨
      (∃ evs l, s.stack = [] ∧ s.epollWait evs = some l ∧
        (∀ c ∈ l.map Prod.snd, ((t.chan c).revents, c) ∈ l) ∧ t.state = s.state ∧
        t.activeChannels = l.map Prod.snd ∧ t.stack = Frame.active t.activeChannels ∧
        t.eventHandling = true ∧ t.currentActiveChannel = s.currentActiveChannel) ∨
      (∃ c rest, s.stack = .handle c :: rest ∧ t = { s with
        toReactor := s.enterChannel c
        stack := (if c = s.channel then Frame.guarded else [.user]) ++ rest }) ∨
      ∃ rest, s.stack = .eventsDone :: rest ∧ t = { s with
        toReactor := { s.toReactor with currentActiveChannel := none, eventHandling := false }
        stack := rest } := by
  cases h with
  | ran hu hr ht => exact Or.inl ((hu.stays hp).trans ht.stays)
  | called hu hr ht =>
    refine Or.inl (stays_of_position ?_ ?_ ?_ ?_)
    · rw [Conn.position, Conn.position, ht.spec.2.1, hu.spec.2.1]
    all_goals rw [ht.spec.2.2, hu.spec.2.2]
  | refused | stuck | queue | begin | write | defer =>
    exact Or.inl (stays_of_position rfl rfl rfl rfl)
  | removed hs | closeCallback hs | handled hs | ret hs =>
    exact Or.inl (stays_of_pop hp hs (by simp) rfl rfl rfl rfl)
  | skip hs hf => exact Or.inl (stays_of_pop hp hs (by rintro rfl; exact hf) rfl rfl rfl rfl)
  | doPendingFunctors hs =>
    have hp' := hp
    rw [position_of_loop hs rfl] at hp'
    obtain rfl := hp'.of_doPendingFunctors
    exact Or.inl (stays_of_functors (position_of_loop hs rfl) (by simp) rfl rfl rfl rfl)
  | @poll evs l r hs hw hf =>
    obtain ⟨-, hact, hcur⟩ := Reactor.fillActiveChannels_same hf
    exact Or.inr (Or.inl ⟨evs, l, hs, hw,
      fun c hc => (Reactor.fillActiveChannels_revents c hf).resolve_right fun h => h.1 hc,
      rfl, by simpa using hact, rfl, rfl, hcur⟩)
  | @handle w r c rest hs => exact Or.inr (Or.inr (Or.inl ⟨c, rest, hs, rfl⟩))
  | @eventsDone w r rest hs => exact Or.inr (Or.inr (Or.inr ⟨rest, hs, rfl⟩))

theorem base_stepped {s t : Conn ι β} {a : Act} (hb : Base s) (h : Stepped s a t) : Base t := by
  have hp := hb.position
  rcases h.stays hp with hst | ⟨evs, l, hs, hw, -, -, hact, htst, hev, hcur⟩ | ⟨c, rest, hs, rfl⟩ |
    ⟨rest, hs, rfl⟩
  · exact base_of_stays hb h hst
  · refine ⟨h.change.agree hb.agree, position_step hb.agree h hp,
      h.channel ▸ h.change.masked hb.masked, ?_, ?_, public_stepped hb.threads h,
      untouched_stepped hb.agree hp h hb.untouched⟩
    · intro hc
      rw [hcur, h.channel] at hc
      have hmem := (hb.current hc).1
      rw [Conn.position, hs] at hmem
      cases hmem
    · intro hmem
      have hact' : Position s.channel (Frame.active t.activeChannels) :=
        .events _ (hact ▸ Reactor.epollWait_nodup hb.agree hw)
      rw [position_eq_stack htst hact'] at hmem
      rcases Frame.mem_active.mp hmem with ⟨d, hd, he⟩ | he | he
      · exact ⟨hev, Frame.handle.inj he ▸ hd⟩
      · cases he
      · cases he
  · refine ⟨h.change.agree hb.agree, position_step hb.agree h hp,
      h.channel ▸ h.change.masked hb.masked, ?_, ?_, public_stepped hb.threads h,
      untouched_stepped hb.agree hp h hb.untouched⟩
    · intro hcur
      have hc : c = s.channel := by
        simp only [enterChannel] at hcur
        split at hcur
        · assumption
        · exact Option.some.inj hcur
      subst hc
      have hp' := hp
      rw [position_of_loop hs rfl] at hp'
      obtain ⟨l, hl, hcl, rfl⟩ := hp'.of_handle
      have hd : Position s.channel (Frame.guarded ++ Frame.active l) :=
        .dispatch _ l (List.suffix_refl _) hl hcl
      rw [position_eq_stack (by rw [if_pos rfl]) hd]
      simpa [Frame.mem_active, Frame.guarded] using hcl
    · intro hmem
      have hsub : .handle s.channel ∈ s.position := by
        rw [position_of_loop hs rfl] at hp ⊢
        by_cases hc : c = s.channel
        · exact hc ▸ List.mem_cons_self
        · rw [position_of_callback (f := .user) (l := rest) (by rw [if_neg hc]; rfl) rfl,
            dropWhile_of_position hp.tail] at hmem
          exact List.mem_cons_of_mem _ hmem
      have hact := hb.active hsub
      simp only [enterChannel]
      split
      · exact hact
      · exact hact
  · refine ⟨h.change.agree hb.agree, position_step hb.agree h hp,
      h.channel ▸ h.change.masked hb.masked, ?_, ?_, public_stepped hb.threads h,
      untouched_stepped hb.agree hp h hb.untouched⟩
    · intro hc
      cases hc
    · intro hmem
      have hp' := hp
      rw [position_of_loop hs rfl] at hp'
      rw [position_eq_stack rfl hp'.tail] at hmem
      rcases hp'.cons_cases with ⟨he | he, -⟩ | ⟨-, rfl⟩ | ⟨d, l, he, -⟩ | ⟨ds, l, hd, -⟩
      · obtain ⟨b, he⟩ := he
        cases he
      · cases he
      · simp at hmem
      · cases he
      · simp [Frame.guarded, List.suffix_cons_iff] at hd

/-- A frame of the position was there before the step, except that `poll` makes channels
active and the turn of the connection's own channel comes. -/
theorem mem_position_stepped {s t : Conn ι β} {a : Act} (hb : Base s) (h : Stepped s a t)
    {f : Frame ι} (hf : f ∈ t.position) : f ∈ s.position ∨ (∃ b, f = .functors b) ∨
      (∃ evs l, s.stack = [] ∧ s.epollWait evs = some l ∧
        (∀ c ∈ l.map Prod.snd, ((t.chan c).revents, c) ∈ l) ∧ t.state = s.state ∧
        f ∈ Frame.active (l.map Prod.snd)) ∨
      ∃ rest, s.stack = .handle s.channel :: rest ∧ t.state = s.state ∧ f ∈ Frame.guarded := by
  have hp := hb.position
  rcases h.stays hp with hst | ⟨evs, l, hs, hw, hrev, hstate, hact, htst, -⟩ | ⟨c, rest, hs, rfl⟩ |
    ⟨rest, hs, rfl⟩
  · exact (hst.mem f hf).imp_right Or.inl
  · have hact' : Position s.channel (Frame.active t.activeChannels) :=
      .events _ (hact ▸ Reactor.epollWait_nodup hb.agree hw)
    rw [position_eq_stack htst hact', hact] at hf
    exact Or.inr (Or.inr (Or.inl ⟨evs, l, hs, hw, hrev, hstate, hf⟩))
  · rw [position_of_loop hs rfl] at hp ⊢
    by_cases hc : c = s.channel
    · subst hc
      obtain ⟨l, hl, hcl, rfl⟩ := hp.of_handle
      have hd : Position s.channel (Frame.guarded ++ Frame.active l) :=
        .dispatch _ l (List.suffix_refl _) hl hcl
      rw [position_eq_stack (by rw [if_pos rfl]) hd] at hf
      rcases List.mem_append.mp hf with hf | hf
      · exact Or.inr (Or.inr (Or.inr ⟨_, hs, rfl, hf⟩))
      · exact Or.inl (List.mem_cons_of_mem _ hf)
    · rw [position_of_callback (f := .user) (l := rest) (by rw [if_neg hc]; rfl) rfl,
        dropWhile_of_position hp.tail] at hf
      exact Or.inl (List.mem_cons_of_mem _ hf)
  · rw [position_of_loop hs rfl] at hp ⊢
    rw [position_eq_stack rfl hp.tail] at hf
    exact Or.inl (List.mem_cons_of_mem _ hf)

/-- `poll` is called when the loop has nothing left to do. -/
theorem Stepped.ne_poll {s t : Conn ι β} {a : Act} (h : Stepped s a t) {f : Frame ι}
    (hf : f ∈ s.position) : ∀ evs, a ≠ .poll evs := by
  rintro evs rfl
  cases h with
  | poll hs =>
    rw [Conn.position, hs] at hf
    cases hf
  | ran hu => cases hu
  | refused hu => cases hu
  | called hu => cases hu

theorem base_step {s t : Conn ι β} {a : Act} (hb : Base s) (h : step s a = some t) : Base t :=
  base_stepped hb (step_stepped hb.agree h).2

/-- A connection that has just been constructed. -/
structure Fresh (r : Reactor ι) (c : ι) : Prop where
  agree : r.Agree
  chan : ∃ fd, r.chan c = .new fd
  current : r.currentActiveChannel = none

omit [DecidableEq ι] in
theorem base_init {r : Reactor ι} {c : ι} (h : Fresh r c) (mark : Nat) (hw wc : Bool) :
    Base (init r c mark hw wc : Conn ι β) where
  agree := h.agree
  position := .idle
  masked _ := by
    obtain ⟨fd, hfd⟩ := h.chan
    simp [init, hfd, Channel.new]
  current hc := by
    rw [show (init r c mark hw wc : Conn ι β).currentActiveChannel = none from h.current] at hc
    cases hc
  active hc := by simp [init, position] at hc
  threads _ m hm := by simp [init] at hm
  untouched := untouched_of_not_mem (by simp [init]) (by simp [init])

/-- Every run keeps `Base`, whatever the users and the other objects do. -/
theorem base_run {r : Reactor ι} {c : ι} (hr : Fresh r c) (mark : Nat) (hw wc : Bool)
    {as : List Act} {t : Conn ι β} (h : Steps.run step (init r c mark hw wc) as = some t) :
    Base t :=
  Steps.run_invariant (I := Base) (fun _ _ _ hb hs => base_step hb hs)
    (base_init hr mark hw wc) h

/-- A connection on fd 5 that has its loop for itself. -/
def alone : Conn Unit (List UInt8) := init (Reactor.fresh fun _ => 5) () 64 false true

theorem fresh_alone : Fresh (Reactor.fresh fun _ : Unit => 5) () :=
  ⟨Reactor.agree_fresh fun _ _ _ => rfl, ⟨5, rfl⟩, rfl⟩

/-- `alone` is established. -/
def established : List Act := [.enter .connectEstablished (.wrote 0) (.data []), .ret]

/-- The loop goes on `n` times; its writes take nothing and its reads find the end. -/
def goes (n : Nat) : List Act := List.replicate n (.go (.wrote 0) (.data []))

end Conn

end SimpleNet
