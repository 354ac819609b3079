import SimpleNet.Connection.Down

/-!
# Teardown

`tears_down`: when `connectDestroyed` runs once on an established connection, it fails no
assertion, and afterwards the connection is disconnected, asks for no events, is not in the
poller and was reported down once.

`connectDestroyed` disconnects only a `kConnected` connection.  A `kDisconnecting` one keeps
its mask, so that `channel_->remove()` fails (`destroys_disconnecting`), or it keeps its
state.  The other steps that are left out are a `connectDestroyed` from the handler of another
channel while this one is in `activeChannels_`, handled or not, or on a closed connection that
reads again; a `startReadInLoop` in the down callback of `connectDestroyed`; and a call on
another thread that is interrupted, as a late `setState` brings a closed connection back.
-/

namespace SimpleNet

namespace Life

/-- How often `connectDestroyed` ran to its end, or is running. -/
def destroys (l : Life) : Nat := l.owed.count .remove + l.log.count .destroyed

theorem destroys_step {l l' : Life} {w : Write} (h : Step l w l') :
    l'.destroys = l.destroys ∨
      l'.destroys = l.destroys + 1 ∧ l'.owed = .remove :: l.owed ∧ l'.state = (if
        l.state = .kConnected then .kDisconnected else l.state) := by
  cases h with
  | stay => exact Or.inl rfl
  | up | shutdown | close | write => left; simp [destroys]
  | closed => left; simp [destroys]
  | destroyed hs => right; simp [destroys, hs]; omega
  | remove hs => right; simp [destroys, hs]; omega
  | closeCallback hf => left; simp [destroys, hf]
  | removed hf => left; simp [destroys, hf]; omega

end Life

namespace Conn

variable {ι β : Type} [DecidableEq ι] [Fifo β UInt8]

/-- The connection is torn down. -/
structure Torn (s : Conn ι β) : Prop where
  state : s.state = .kDisconnected
  events : s.ch.events = kNoneEvent
  channels : s.channels s.ch.fd = none
  epoll : s.epoll s.ch.fd = none
  downs : s.trace.count (.connectionCallback false) = 1

/-- What a step of `connectDestroyed` from `s` to `t` does. -/
structure TearsDown (s : Conn ι β) (a : Act) (t : Conn ι β) : Prop where
  /-- up to `channel_->remove()` -/
  destroy : s.runsFn a = some .connectDestroyed → t.aborted = none
  /-- `channel_->remove()` -/
  remove : ∀ {w r rest}, a = .go w r → s.stack = .remove :: rest →
    t.aborted = none ∧ t.stack = rest ∧ Torn t
  /-- nothing reports it down again -/
  downs : .destroyed ∈ t.trace → t.trace.count (.connectionCallback false) = 1

/-- Where `connectDestroyed` tears the connection down. -/
structure TeardownOk (s : Conn ι β) (a : Act) : Prop where
  whole : a.isWhole = true
  proper : s.Proper a
  /-- `shutdown()` is called on a `kConnected` connection -/
  shutdown : s.writing a = .shutdown → s.state = .kConnected
  /-- `connectDestroyed` runs once, on an established connection -/
  once : s.runsFn a = some .connectDestroyed →
    s.state ≠ .kConnecting ∧ .remove ∉ s.stack ∧ .destroyed ∉ s.trace
  destroy : s.runsFn a = some .connectDestroyed →
    s.state ≠ .kDisconnecting ∧ (s.state = .kDisconnected → s.ch.events = kNoneEvent) ∧
      s.Removable s.channel
  /-- not in the down callback of `connectDestroyed` -/
  startRead : s.runsFn a = some .startReadInLoop → .remove ∉ s.stack

instance (s : Conn ι β) (a : Act) : Decidable (TeardownOk s a) :=
  decidable_of_iff (a.isWhole = true ∧ s.Proper a ∧
      (s.writing a = .shutdown → s.state = .kConnected) ∧
      (s.runsFn a = some .connectDestroyed →
        s.state ≠ .kConnecting ∧ .remove ∉ s.stack ∧ .destroyed ∉ s.trace) ∧
      (s.runsFn a = some .connectDestroyed →
        s.state ≠ .kDisconnecting ∧ (s.state = .kDisconnected → s.ch.events = kNoneEvent) ∧
          s.Removable s.channel) ∧
      (s.runsFn a = some .startReadInLoop → .remove ∉ s.stack))
    ⟨fun ⟨h1, h2, h3, h4, h5, h6⟩ => ⟨h1, h2, h3, h4, h5, h6⟩,
      fun ⟨h1, h2, h3, h4, h5, h6⟩ => ⟨h1, h2, h3, h4, h5, h6⟩⟩

/-- What the runs of `tears_down` keep. -/
structure TeardownInv (s : Conn ι β) : Prop where
  base : Base s
  phase : s.life.Phase
  once : s.life.destroys ≤ 1
  /-- an established channel is in the poller's map until it is destroyed -/
  mapped : s.state ≠ .kConnecting → .destroyed ∉ s.trace → s.ch.index ≠ .kNew
  /-- a removal to come will succeed -/
  removes : .remove ∈ s.stack → s.state = .kDisconnected ∧ s.CanRemove s.channel
  destroyed : .destroyed ∈ s.trace → s.state = .kDisconnected

omit [DecidableEq ι] [Fifo β UInt8] in
theorem TeardownOk.writing {s : Conn ι β} {a : Act} (h : TeardownOk s a)
    (hs : s.state = .kDisconnected) : s.writing a = .none := by
  cases hw : s.writing a with
  | none => rfl
  | shutdown => rw [h.shutdown hw] at hs; cases hs
  | micro => exact absurd hw (writing_of_isWhole s h.whole)

/-- The removals to come. -/
def removals (s : Conn ι β) : Nat := (s.stack.filterMap Frame.owed).count .remove

omit [DecidableEq ι] [Fifo β UInt8] in
theorem removals_pos {s : Conn ι β} : 0 < s.removals ↔ .remove ∈ s.stack := by
  rw [removals, List.count_pos_iff, List.mem_filterMap]
  constructor
  · rintro ⟨f, hf, ho⟩
    cases f <;> first | exact hf | cases ho
  · exact fun h => ⟨_, h, rfl⟩

omit [DecidableEq ι] [Fifo β UInt8] in
theorem removals_of_cons {s : Conn ι β} {f : Frame ι} {rest : List (Frame ι)}
    (hs : s.stack = f :: rest) :
    (rest.filterMap Frame.owed).count .remove ≤ s.removals := by
  rw [removals, hs]
  exact ((List.sublist_cons_self f rest).filterMap _).count_le _

/-- Only `connectDestroyed` asks for a removal. -/
theorem Stepped.removals {s t : Conn ι β} {a : Act} (h : Stepped s a t) :
    t.removals ≤ s.removals ∨ ∃ w r u, Runs s a w r .connectDestroyed u ∧
      (s.state = .kConnected ∧ t = u.down .connectDestroyed [] .remove ∨
        s.state ≠ .kConnected ∧ t = u.push [.remove]) := by
  have hpop : ∀ {f : Frame ι} {rest : List (Frame ι)}, s.stack = f :: rest → t.stack = rest →
      t.removals ≤ s.removals := fun hs ht => by
    rw [Conn.removals, ht]
    exact removals_of_cons hs
  have hsame : t.stack = s.stack → t.removals ≤ s.removals := fun ht =>
    Nat.le_of_eq (by rw [Conn.removals, Conn.removals, ht])
  cases h with
  | @ran _ w r f u _ hu hr hran =>
    have hstate : u.state = s.state := by cases hu <;> rfl
    have hus : u.removals ≤ s.removals := by
      cases hu with
      | functors hs =>
        have h := removals_of_cons hs
        exact h
      | onClose hs | onError hs | onRead hs | onWrite hs => exact removals_of_cons hs
      | enter | call => exact Nat.le_refl _
    cases hran with
    | data hd =>
      rw [Conn.removals, hd.stack]
      exact Or.inl hus
    | user | message | up | closed => exact Or.inl hus
    | destroyed hk => exact Or.inr ⟨w, r, u, hu, Or.inl ⟨hstate ▸ hk, rfl⟩⟩
    | remove hk => exact Or.inr ⟨w, r, u, hu, Or.inr ⟨hstate ▸ hk, rfl⟩⟩
  | called hu hr ht => exact Or.inl (hsame (ht.spec.2.1.trans hu.spec.2.1))
  | poll hs =>
    refine Or.inl (Nat.le_of_not_lt ?_)
    intro hlt
    have hm := removals_pos.mp (Nat.zero_lt_of_lt hlt)
    simp at hm
  | refused | stuck | queue | begin | write | defer => exact Or.inl (hsame rfl)
  | removed hs => exact Or.inl (hpop hs rfl)
  | closeCallback hs => exact Or.inl (hpop hs rfl)
  | @handle w r c rest hs =>
    left
    have h := removals_of_cons hs
    by_cases hc : c = s.channel <;>
      simpa [Conn.removals, hc, Frame.owed, List.filterMap_cons] using h
  | skip hs => exact Or.inl (hpop hs rfl)
  | handled hs => exact Or.inl (hpop hs rfl)
  | eventsDone hs => exact Or.inl (hpop hs rfl)
  | doPendingFunctors hs =>
    have h := removals_of_cons hs
    exact Or.inl h
  | ret hs => exact Or.inl (hpop hs rfl)

omit [Fifo β UInt8] in
theorem Ran.index {u t : Conn ι β} {r : ReadResult} {f : Functor} (h : Ran u r f t)
    (hi : u.ch.index ≠ .kNew) : t.ch.index ≠ .kNew := by
  have hmask : ∀ m, ((u.toReactor.setMask u.channel m).chan u.channel).index ≠ .kNew := fun m => by
    rw [Reactor.setMask_self]
    exact Reactor.nextIndex_ne_kNew _ m
  cases h with
  | data hd =>
    rw [ch, hd.channel]
    rcases hd.reactor with hr | ⟨m, hr⟩
    · rw [hr]
      exact hi
    · rw [hr]
      exact hmask m
  | user | message | remove => exact hi
  | up =>
    simp only [ch, Conn.up, Reactor.setMask_self]
    exact Reactor.nextIndex_ne_kNew _ _
  | destroyed | closed => exact hmask _

/-- Only a removal takes the channel out of the poller's map. -/
theorem Stepped.index {s t : Conn ι β} {a : Act} (h : Stepped s a t)
    (hi : s.ch.index ≠ .kNew) : t.ch.index ≠ .kNew ∨ .destroyed ∈ t.trace := by
  have hsame : Reactor.SameViews s.toReactor t.toReactor → t.ch.index ≠ .kNew := fun hv => by
    rw [ch, h.channel, hv.index]
    exact hi
  cases h with
  | ran hu hr hran =>
    refine Or.inl (hran.index ?_)
    rw [ch, hu.channel, hu.toReactor]
    exact hi
  | removed => exact Or.inr (by simp)
  | called hu hr ht =>
    left
    rw [ch, ht.spec.1, ht.spec.2.2, hu.spec.1, hu.spec.2.2]
    exact hi
  | poll hs hw hf =>
    have hv := (Reactor.fillActiveChannels_same hf).1
    exact Or.inl (hsame ⟨hv.fd, hv.events, hv.index, hv.addedToLoop, hv.channels, hv.epoll⟩)
  | handle => exact Or.inl (hsame (sameViews_enterChannel s _))
  | handled => exact Or.inl (hsame (Reactor.sameViews_setChan s.toReactor s.channel
      { s.ch with eventHandling := false } rfl rfl rfl rfl))
  | eventsDone | refused | stuck | closeCallback | skip | doPendingFunctors | ret | queue | begin
  | write | defer => exact Or.inl hi

/-- A connection that comes up is in the poller's map. -/
theorem up_stepped {s t : Conn ι β} {a : Act} (hok : TeardownOk s a) (h : Stepped s a t)
    (hs : s.state = .kConnecting) (ht : t.state ≠ .kConnecting) : t.ch.index ≠ .kNew := by
  cases h with
  | @ran _ w r f u _ hu hr hran =>
    have hstate : u.state = .kConnecting := (show u.state = s.state by cases hu <;> rfl).trans hs
    cases hran with
    | data hd => exact absurd (hd.state.trans hstate) ht
    | user | message | remove => exact absurd hstate ht
    | up =>
      simp only [ch, Conn.up, Reactor.setMask_self]
      exact Reactor.nextIndex_ne_kNew _ _
    | destroyed hk => rw [hstate] at hk; cases hk
    | closed hf hl => rw [hstate] at hl; rcases hl with hl | hl <;> cases hl
  | @called _ l w c u _ hu hr hc =>
    have hstate : u.state = .kConnecting := (show u.state = s.state by cases hu <;> rfl).trans hs
    cases hc with
    | data hd => exact absurd (hd.state.trans hstate) ht
    | shutdown => rw [hok.shutdown hu.writing] at hs; cases hs
    | close hf hl => rw [hstate] at hl; rcases hl with hl | hl <;> cases hl
  | write => cases hok.whole
  | poll | refused | removed | stuck | closeCallback | handle | skip | handled | eventsDone
  | doPendingFunctors | ret | queue | begin | defer => exact absurd hs ht

/-! ### What a step keeps -/

theorem once_stepped {s t : Conn ι β} {a : Act} (h : TeardownInv s) (hok : TeardownOk s a)
    (hst : Stepped s a t) : t.life.destroys ≤ 1 := by
  rcases Life.destroys_step (life_stepped h.base hst) with heq | ⟨heq, howed, -⟩
  · rw [heq]
    exact h.once
  rcases hst.removals with hle | ⟨w, r, u, hu, -⟩
  · have h1 : t.removals = s.removals + 1 := by
      rw [removals, show t.stack.filterMap Frame.owed = _ from howed, List.count_cons_self]
      rfl
    omega
  · obtain ⟨-, hrm, hdes⟩ := hok.once (by rw [runsFn, hu.runs_eq]; rfl)
    have h1 : s.removals = 0 := Nat.eq_zero_of_not_pos fun hp => hrm (removals_pos.mp hp)
    have h2 : s.life.log.count .destroyed = 0 :=
      List.count_eq_zero.mpr fun hm => hdes (List.mem_filter.mp hm).1
    have h3 : s.life.owed.count .remove = 0 := h1
    rw [heq, Life.destroys]
    omega

omit [DecidableEq ι] [Fifo β UInt8] in
/-- Under a removal there is no other. -/
theorem TeardownInv.not_mem_rest {s : Conn ι β} (h : TeardownInv s) {rest : List (Frame ι)}
    (hs : s.stack = .remove :: rest) : .remove ∉ rest := by
  intro hm
  have h1 := h.once
  have h2 : 0 < (rest.filterMap Frame.owed).count .remove :=
    List.count_pos_iff.mpr (List.mem_filterMap.mpr ⟨_, hm, rfl⟩)
  simp only [Life.destroys, life, hs, List.filterMap_cons, Frame.owed, List.count_cons_self] at h1
  omega

omit [DecidableEq ι] [Fifo β UInt8] in
theorem Stays.removable {s t : Conn ι β} (h : Stays s t) {c : ι} (hr : s.Removable c) :
    t.Removable c := by
  unfold Reactor.Removable at hr ⊢
  rw [h.eventHandling, h.current, h.active]
  exact hr

/-- A removal that is to come will still succeed. -/
theorem removes_kept {s t : Conn ι β} {a : Act} (h : TeardownInv s) (hok : TeardownOk s a)
    (hst : Stepped s a t) (hs : .remove ∈ s.stack) (ht : .remove ∈ t.stack) :
    t.CanRemove s.channel := by
  obtain ⟨hd, hn, hi, hr⟩ := h.removes hs
  have hremovable : t.Removable s.channel := by
    rcases hst.stays h.base.position with hstay | ⟨_, _, hnil, -⟩ | ⟨c, rest, hc, -⟩ |
      ⟨rest, hc, -⟩
    · exact hstay.removable hr
    · rw [hnil] at hs
      cases hs
    · exact absurd hs (not_mem_remove_of_loop h.base.position hc rfl)
    · exact absurd hs (not_mem_remove_of_loop h.base.position hc rfl)
  rcases closed_stepped h.base hd hn hst (fun hf => hok.startRead hf hs) with
    hv | ⟨-, -, hmask⟩ | ⟨rest, hst', htst, -⟩
  · exact ⟨(hv.events _).trans hn, by rw [hv.index]; exact hi, hremovable⟩
  · refine ⟨by simp [hmask], ?_, hremovable⟩
    rw [hmask, Reactor.setMask_self]
    exact Reactor.nextIndex_ne_kNew _ _
  · exact absurd (htst ▸ ht) (h.not_mem_rest hst')

theorem removes_stepped {s t : Conn ι β} {a : Act} (h : TeardownInv s) (hok : TeardownOk s a)
    (hst : Stepped s a t) (ht : .remove ∈ t.stack) :
    t.state = .kDisconnected ∧ t.CanRemove t.channel := by
  by_cases hs : .remove ∈ s.stack
  · refine ⟨Life.disconnected_step hok.writing (life_stepped h.base hst) (h.removes hs).1, ?_⟩
    rw [hst.channel]
    exact removes_kept h hok hst hs ht
  rcases hst.removals with hle | ⟨w, r, u, hu, hcase⟩
  · exact absurd (removals_pos.mp (Nat.lt_of_lt_of_le (removals_pos.mpr ht) hle)) hs
  have hfn : s.runsFn a = some .connectDestroyed := by rw [runsFn, hu.runs_eq]; rfl
  obtain ⟨hk, -, hdes⟩ := hok.once hfn
  obtain ⟨hkd, hnone, hrem⟩ := hok.destroy hfn
  have hidx := h.mapped hk hdes
  rw [← hu.toReactor] at hrem
  rcases hcase with ⟨hc, rfl⟩ | ⟨hc, rfl⟩
  · refine ⟨rfl, ?_, ?_, ?_⟩
    · simp [Conn.down]
    · simp only [Conn.down, Reactor.setMask_self]
      exact Reactor.nextIndex_ne_kNew _ _
    · rw [← hu.channel] at hrem
      exact hrem
  · have hd : s.state = .kDisconnected := by
      cases hst' : s.state with
      | kDisconnected => rfl
      | kConnecting => exact absurd hst' hk
      | kConnected => exact absurd hst' hc
      | kDisconnecting => exact absurd hst' hkd
    have hstate : u.state = s.state := by cases hu <;> rfl
    refine ⟨hstate.trans hd, ?_⟩
    rw [push_toReactor, push_channel, hu.toReactor, hu.channel]
    rw [hu.toReactor] at hrem
    exact ⟨hnone hd, hidx, hrem⟩

/-- What has happened is not forgotten. -/
theorem destroyed_kept {s t : Conn ι β} {a : Act} (hb : Base s) (hst : Stepped s a t)
    (hm : .destroyed ∈ s.trace) : .destroyed ∈ t.trace := by
  obtain ⟨es, he⟩ := Life.log_step (life_stepped hb hst)
  have hl : .destroyed ∈ t.life.log := by
    rw [he]
    exact List.mem_append_left _ (List.mem_filter.mpr ⟨hm, rfl⟩)
  exact (List.mem_filter.mp hl).1

theorem mapped_stepped {s t : Conn ι β} {a : Act} (h : TeardownInv s) (hok : TeardownOk s a)
    (hst : Stepped s a t) (ht : t.state ≠ .kConnecting) (hdes : .destroyed ∉ t.trace) :
    t.ch.index ≠ .kNew := by
  by_cases hs : s.state = .kConnecting
  · exact up_stepped hok hst hs ht
  · have hi := h.mapped hs fun hm => hdes (destroyed_kept h.base hst hm)
    exact (hst.index hi).resolve_right hdes

theorem teardownInv_stepped {s t : Conn ι β} {a : Act} (h : TeardownInv s) (hok : TeardownOk s a)
    (hst : Stepped s a t) : TeardownInv t where
  base := base_stepped h.base hst
  phase := phase_stepped h.base hok.writing hst h.phase
  once := once_stepped h hok hst
  mapped := mapped_stepped h hok hst
  removes := removes_stepped h hok hst
  destroyed hm := by
    have hs : s.state = .kDisconnected := by
      rcases destroyed_stepped hst hm with hm | ⟨rest, hs, -⟩
      · exact h.destroyed hm
      · exact (h.removes (hs ▸ List.mem_cons_self)).1
    exact Life.disconnected_step hok.writing (life_stepped h.base hst) hs

omit [DecidableEq ι] in
theorem teardownInv_init {r : Reactor ι} {c : ι} (hr : Fresh r c) (mark : Nat) (hw wc : Bool) :
    TeardownInv (init r c mark hw wc : Conn ι β) where
  base := base_init hr mark hw wc
  phase := phase_init r c mark hw wc
  once := by simp [Life.destroys, life, init]
  mapped hs := by simp [init] at hs
  removes hm := by simp [init] at hm
  destroyed hm := by simp [init] at hm

omit [DecidableEq ι] [Fifo β UInt8] in
theorem downs_of_disconnected {s : Conn ι β} (h : s.life.Phase) (hs : s.state = .kDisconnected) :
    s.trace.count (.connectionCallback false) = 1 := by
  have h1 := h.downs
  rw [if_pos (show s.life.state = .kDisconnected from hs)] at h1
  rw [← h1]
  exact (List.count_filter rfl).symm

/-- A removal that can succeed does. -/
theorem removed_stepped {s t : Conn ι β} {w : WriteResult} {r : ReadResult}
    {rest : List (Frame ι)} (h : Stepped s (.go w r) t) (hs : s.stack = .remove :: rest)
    (hc : s.CanRemove s.channel) : t = { s with
      toReactor := s.toReactor.drop s.channel, stack := rest, trace := s.trace ++ [.destroyed] } := by
  cases h with
  | removed hs' =>
    obtain rfl := (List.cons.inj (hs.symm.trans hs')).2
    rfl
  | stuck hs' hr => exact absurd hc hr
  | ran hu | refused hu =>
    cases hu with
    | functors hs' | onClose hs' | onError hs' | onRead hs' | onWrite hs' =>
      cases hs.symm.trans hs'
  | called hu => cases hu
  | skip hs' hf =>
    obtain rfl := (List.cons.inj (hs.symm.trans hs')).1
    exact hf.elim
  | closeCallback hs' | handle hs' | handled hs' | eventsDone hs' | doPendingFunctors hs' =>
    cases hs.symm.trans hs'

theorem tearsDown_stepped {s t : Conn ι β} {a : Act} (h : TeardownInv s) (hab : s.aborted = none)
    (hok : TeardownOk s a) (hst : Stepped s a t) : TearsDown s a t := by
  have ht := teardownInv_stepped h hok hst
  refine ⟨?_, fun {w r rest} ha hs => ?_, ?_⟩
  · intro hf
    rcases hst.aborted with ht | ⟨w, r, f, u, e, hu, he, -⟩ | ⟨w, r, rest, e, rfl, hs, -⟩
    · exact ht.trans hab
    · rw [runsFn, hu.runs_eq] at hf
      obtain rfl := Option.some.inj hf
      rcases he with ⟨-, he, -⟩ | ⟨-, he, -⟩ <;> cases he
    · simp [runsFn, runs, hs] at hf
  · subst ha
    obtain ⟨hd, hc⟩ := h.removes (hs ▸ List.mem_cons_self)
    obtain rfl := removed_stepped hst hs hc
    refine ⟨hab, rfl, hd, ?_, ?_, ?_, downs_of_disconnected ht.phase hd⟩
    · simpa [ch] using hc.1
    · simp [ch, Reactor.drop]
    · simp [ch, Reactor.drop]
  · intro hm
    exact downs_of_disconnected ht.phase (ht.destroyed hm)

/-- **Teardown is complete**: it holds of every step of every run whose steps are
`TeardownOk`. -/
theorem tears_down {r : Reactor ι} {c : ι} (hr : Fresh r c) (mark : Nat) (hw wc : Bool)
    {as : List Act} {a : Act} {s t : Conn ι β}
    (hrun : Steps.run (Steps.guarded TeardownOk step) (init r c mark hw wc) as = some s)
    (hstep : Steps.guarded TeardownOk step s a = some t) : TearsDown s a t := by
  have h : TeardownInv s := by
    refine Steps.run_invariant ?_ (teardownInv_init hr mark hw wc) hrun
    intro u b v h hs
    obtain ⟨hok, hs⟩ := Steps.guarded_eq_some.mp hs
    exact teardownInv_stepped h hok (step_stepped h.base.agree hs).2
  obtain ⟨hok, hs⟩ := Steps.guarded_eq_some.mp hstep
  obtain ⟨hab, hst⟩ := step_stepped h.base.agree hs
  exact tearsDown_stepped h hab hok hst

/-- `connectDestroyed` runs directly on a connection that writes. -/
def destroyedConnected : List Act :=
  [.enter .connectEstablished (.wrote 0) (.data []), .call (.send ⟨0, [1, 2]⟩) (.wrote 1), .ret,
    .enter .connectDestroyed (.wrote 0) (.data []), .ret]

/-- Its `channel_->remove()` is left. -/
theorem tears_down_connected : ∃ s t : Conn Unit (List UInt8),
    Steps.run (Steps.guarded TeardownOk step) alone destroyedConnected = some s ∧
    Steps.guarded TeardownOk step s (.go (.wrote 0) (.data [])) = some t ∧ Torn t := by
  have hobs : (Steps.run (Steps.guarded TeardownOk step) alone destroyedConnected).any (fun s =>
      decide (s.stack = [.remove]) &&
        (Steps.guarded TeardownOk step s (.go (.wrote 0) (.data []))).isSome) = true := by decide
  obtain ⟨s, hs, hobs⟩ := (Option.any_eq_true _ _).mp hobs
  obtain ⟨hrem, hsome⟩ := Bool.and_eq_true_iff.mp hobs
  obtain ⟨t, ht⟩ := Option.isSome_iff_exists.mp hsome
  exact ⟨s, t, hs, ht, ((tears_down fresh_alone 64 false true hs ht).remove rfl
    (of_decide_eq_true hrem)).2.2⟩

/-- `connectDestroyed` runs directly on a connection that was shut down. -/
def destroyedDisconnecting : List Act :=
  established ++ [.offCall .shutdown, .enter .connectDestroyed (.wrote 0) (.data [])]

/-- `channel_->remove()` fails `isNoneEvent()`: the mask was not cleared. -/
theorem destroys_disconnecting : ∃ s t : Conn Unit (List UInt8),
    Steps.run step alone destroyedDisconnecting = some s ∧ s.state = .kDisconnecting ∧
    step s (.go (.wrote 0) (.data [])) = some t ∧ t.aborted = some .removeNone ∧
    ¬ TearsDown s (.go (.wrote 0) (.data [])) t := by
  have hobs : (Steps.run step alone destroyedDisconnecting).any (fun s =>
      (step s (.go (.wrote 0) (.data []))).any fun t => decide (s.state = .kDisconnecting ∧
        s.stack = [.remove] ∧ t.aborted = some .removeNone)) = true := by decide
  obtain ⟨s, hs, hobs⟩ := (Option.any_eq_true _ _).mp hobs
  obtain ⟨t, ht, hobs⟩ := (Option.any_eq_true _ _).mp hobs
  obtain ⟨h1, hst, h2⟩ := of_decide_eq_true hobs
  refine ⟨s, t, hs, h1, ht, h2, ?_⟩
  intro h
  rw [(h.remove rfl hst).1] at h2
  cases h2

end Conn

end SimpleNet
