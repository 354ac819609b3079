import SimpleNet.Connection.Loop

/-!
# The life of a connection

The life cycle by itself: `state_`, the calls that `handleClose` and `connectDestroyed`
still have to make, and the log of what was done to the connection.  `Life.Step` says how
these change, whatever the loop, the buffers and the poller do, and `life_stepped` says
that every step of a connection is such a step.

`Life.Phase` counts: a connection goes down once, and it is down exactly when it is
`kDisconnected`.  It is kept by every step that does not write `state_` over
`kDisconnected` (`phase_step`).
-/

namespace SimpleNet

/-- The effects that belong to the life cycle. -/
def Effect.isLife : Effect → Bool
  | .setState .. | .disableAll | .connectionCallback _ | .closeCallback | .handleClose
  | .destroyed => true
  | _ => false

theorem Effect.isLife_of_isData {e : Effect} (h : e.isData = true) : e.isLife = false := by
  cases e <;> first | rfl | cases h

/-- A call still to be made on the way down. -/
inductive Owed
  | closeCallback | remove
  deriving DecidableEq, Repr

/-- The call that a frame still has to make. -/
def Frame.owed {ι : Type} : Frame ι → Option Owed
  | .closeCallback => some .closeCallback
  | .remove => some .remove
  | _ => none

structure Life where
  state : StateE
  owed : List Owed
  log : List Effect

/-- A write of `state_` that does not depend on its value: `shutdown()`, or the second
half of a call on another thread. -/
inductive Write
  | none | shutdown | micro
  deriving DecidableEq, Repr

namespace Life

/-- The steps of a life. -/
inductive Step (l : Life) : Write → Life → Prop
  | stay {w} : Step l w l
  | up {w} (hs : l.state = .kConnecting) : Step l w { l with
      state := .kConnected
      log := l.log ++ [.setState .connectEstablished l.state .kConnected, .connectionCallback true] }
  | closed {w} (hs : l.state.Live) : Step l w
      { state := .kDisconnected
        owed := .closeCallback :: l.owed
        log := l.log ++ [.handleClose, .setState .handleClose l.state .kDisconnected, .disableAll,
          .connectionCallback false] }
  | destroyed {w} (hs : l.state = .kConnected) : Step l w
      { state := .kDisconnected
        owed := .remove :: l.owed
        log := l.log ++ [.setState .connectDestroyed l.state .kDisconnected, .disableAll,
          .connectionCallback false] }
  | remove {w} (hs : l.state ≠ .kConnected) : Step l w { l with owed := .remove :: l.owed }
  | closeCallback {w fs} (hf : l.owed = .closeCallback :: fs) :
    Step l w { l with owed := fs, log := l.log ++ [.closeCallback] }
  | removed {w fs} (hf : l.owed = .remove :: fs) :
    Step l w { l with owed := fs, log := l.log ++ [.destroyed] }
  | shutdown : Step l .shutdown { l with
      state := .kDisconnecting
      log := l.log ++ [.setState .shutdown l.state .kConnected,
        .setState .shutdown .kConnected .kDisconnecting] }
  | close {w fn} (hfn : fn = .forceClose ∨ fn = .forceCloseWithDelay) (hs : l.state.Live) :
    Step l w { l with
      state := .kDisconnecting, log := l.log ++ [.setState fn l.state .kDisconnecting] }
  | write {f st} (hst : st.Live) : Step l .micro { l with
      state := st, log := l.log ++ [.setState f l.state st] }

/-- How often the connection was reported down. -/
def downs (l : Life) : Nat := l.log.count (.connectionCallback false)

/-- How often `handleClose` ran. -/
def closes (l : Life) : Nat := l.log.count .handleClose

/-- How often `closeCallback_` was called, or is still to be called. -/
def closeCallbacks (l : Life) : Nat := l.log.count .closeCallback + l.owed.count .closeCallback

/-- A connection goes down once, and is down exactly when it is `kDisconnected`. -/
structure Phase (l : Life) : Prop where
  downs : l.downs = if l.state = .kDisconnected then 1 else 0
  disabled : l.log.count .disableAll = l.downs
  closes : l.closes ≤ l.downs
  closeCallbacks : l.closeCallbacks = l.closes

/-- `kDisconnected` is left only by an unconditional write. -/
theorem disconnected_step {l l' : Life} {w : Write} (hw : l.state = .kDisconnected → w = .none)
    (h : Step l w l') (hs : l.state = .kDisconnected) : l'.state = .kDisconnected := by
  cases h with
  | stay | remove | closeCallback | removed => exact hs
  | closed | destroyed => rfl
  | up hst => rw [hs] at hst; cases hst
  | shutdown => cases hw hs
  | close hfn hst => rcases hst with hst | hst <;> rw [hs] at hst <;> cases hst
  | write => cases hw hs

/-- The log only grows. -/
theorem log_step {l l' : Life} {w : Write} (h : Step l w l') : ∃ es, l'.log = l.log ++ es := by
  cases h with
  | stay | remove => exact ⟨[], by simp⟩
  | up | closed | destroyed | closeCallback | removed | shutdown | close | write => exact ⟨_, rfl⟩

theorem phase_step {l l' : Life} {w : Write} (hw : l.state = .kDisconnected → w = .none)
    (h : Step l w l') (hp : Phase l) : Phase l' := by
  obtain ⟨h1, h2, h3, h4⟩ := hp
  simp only [downs, closes, closeCallbacks] at h1 h2 h3 h4
  cases h with
  | stay => exact ⟨h1, h2, h3, h4⟩
  | up hs =>
    rw [hs] at h1
    constructor <;> simp_all [Life.downs, Life.closes, Life.closeCallbacks]
  | closed hs =>
    have hne : l.state ≠ .kDisconnected := by rcases hs with hs | hs <;> simp [hs]
    rw [if_neg hne] at h1
    constructor <;> simp_all [Life.downs, Life.closes, Life.closeCallbacks]
  | destroyed hs =>
    rw [hs] at h1
    constructor <;> simp_all [Life.downs, Life.closes, Life.closeCallbacks]
  | remove hs => constructor <;> simp_all [Life.downs, Life.closes, Life.closeCallbacks]
  | closeCallback hf =>
    constructor <;> simp_all [Life.downs, Life.closes, Life.closeCallbacks]
    omega
  | removed hf => constructor <;> simp_all [Life.downs, Life.closes, Life.closeCallbacks]
  | shutdown =>
    have hne : l.state ≠ .kDisconnected := fun he => by cases hw he
    rw [if_neg hne] at h1
    constructor <;> simp_all [Life.downs, Life.closes, Life.closeCallbacks]
  | close hfn hs =>
    have hne : l.state ≠ .kDisconnected := by rcases hs with hs | hs <;> simp [hs]
    rw [if_neg hne] at h1
    constructor <;> simp_all [Life.downs, Life.closes, Life.closeCallbacks]
  | @write fn st hst =>
    have hne : l.state ≠ .kDisconnected := fun he => by cases hw he
    have hne' : st ≠ .kDisconnected := by rcases hst with rfl | rfl <;> simp
    rw [if_neg hne] at h1
    constructor <;> simp_all [Life.downs, Life.closes, Life.closeCallbacks]

end Life

namespace Conn

variable {ι β : Type}

/-- The life of a connection. -/
def life (s : Conn ι β) : Life where
  state := s.state
  owed := s.stack.filterMap Frame.owed
  log := s.trace.filter Effect.isLife

/-- The unconditional write of `state_` that a step makes. -/
def writing (s : Conn ι β) : Act → Write
  | .call .shutdown _ | .offCall .shutdown => .shutdown
  | .micro t => match s.threads t with
    | .setState .. :: _ => .micro
    | _ => .none
  | _ => .none

theorem writing_of_isWhole (s : Conn ι β) {a : Act} (h : a.isWhole = true) :
    s.writing a ≠ .micro := by
  cases a with
  | call c w => cases c <;> simp [writing]
  | offCall c => cases c <;> simp [writing]
  | micro t => cases h
  | _ => simp [writing]

theorem life_eq {s t : Conn ι β} (hst : t.state = s.state)
    (hfr : t.stack.filterMap Frame.owed = s.stack.filterMap Frame.owed)
    (htr : t.trace.filter Effect.isLife = s.trace.filter Effect.isLife) : t.life = s.life := by
  unfold life
  rw [hst, hfr, htr]

theorem filter_isLife_append {es fs : List Effect} (h : ∀ e ∈ fs, e.isData = true) :
    (es ++ fs).filter Effect.isLife = es.filter Effect.isLife := by
  have hnil : fs.filter Effect.isLife = [] :=
    List.filter_eq_nil_iff.mpr fun e he => by simp [Effect.isLife_of_isData (h e he)]
  rw [List.filter_append, hnil, List.append_nil]

variable [DecidableEq ι]

theorem DataStep.life {s t : Conn ι β} (h : DataStep s t) : t.life = s.life := by
  obtain ⟨es, he, hd⟩ := h.trace
  exact life_eq h.state (by rw [h.stack]) (by rw [he, filter_isLife_append hd])

theorem Ran.life {u t : Conn ι β} {r : ReadResult} {f : Functor} (h : Ran u r f t) {w : Write} :
    Life.Step u.life w t.life := by
  cases h with
  | data hd => exact hd.life ▸ .stay
  | user => exact .stay
  | message b es hr hes =>
    have hl : (({ u with inputBuffer := b }.emit .messageCallback).push [.user]).life = u.life :=
      life_eq rfl rfl (by simp [emit, push, Effect.isLife])
    exact hl ▸ .stay
  | up hs =>
    have hst := Life.Step.up (l := u.life) (w := w) hs
    simpa [Conn.life, Conn.up, Effect.isLife, Frame.owed,
      List.filter_cons, List.filterMap_cons] using hst
  | destroyed hs =>
    have hst := Life.Step.destroyed (l := u.life) (w := w) hs
    simpa [Conn.life, Conn.down, Effect.isLife, Frame.owed,
      List.filter_cons, List.filterMap_cons] using hst
  | remove hs =>
    have hst := Life.Step.remove (l := u.life) (w := w) hs
    simpa [Conn.life, push, Frame.owed, List.filterMap_cons] using hst
  | closed hf hs =>
    have hst := Life.Step.closed (l := u.life) (w := w) hs
    simpa [Conn.life, Conn.down, Effect.isLife, Frame.owed,
      List.filter_cons, List.filterMap_cons] using hst

/-- A call writes `state_` over a dead connection only if it is `shutdown()`. -/
theorem Called.life {u t : Conn ι β} {c : Call} (h : Called u c t) :
    Life.Step u.life (if c = .shutdown then .shutdown else .none) t.life := by
  cases h with
  | data hd hr => exact hd.life ▸ .stay
  | shutdown hd hr =>
    rw [hd.life, if_pos rfl]
    have hst := Life.Step.shutdown (l := u.life)
    simpa [Conn.life, Effect.isLife, List.filter_cons] using hst
  | @close c fn _ hc hs hd hr =>
    rw [hd.life]
    have hfn : fn = .forceClose ∨ fn = .forceCloseWithDelay := by
      rcases hc with ⟨-, rfl⟩ | ⟨-, rfl⟩ <;> simp
    have hst := Life.Step.close (l := u.life)
      (w := if c = .shutdown then .shutdown else .none) hfn hs
    simpa [Conn.life, Effect.isLife, List.filter_cons] using hst

omit [DecidableEq ι] in
theorem Calls.writing {s u : Conn ι β} {a : Act} {l : Bool} {w : WriteResult}
    {c : Call} (h : Calls s a l w c u) :
    s.writing a = if c = .shutdown then .shutdown else .none := by
  cases h with
  | @call c w hs hc => cases c <;> rfl
  | fire => rfl
  | @offCall c => cases c <;> rfl

variable [Fifo β UInt8]

theorem setState_of_body {c : Call} {st st' : StateE} {fn : Fn}
    (h : .setState fn st' ∈ c.body st) : st'.Live := by
  cases c with
  | send m =>
    simp only [Call.body, TcpConnection.send] at h
    split at h <;> simp at h
  | shutdown =>
    simp only [Call.body, TcpConnection.shutdown, List.mem_cons, Micro.setState.injEq] at h
    rcases h with ⟨-, rfl⟩ | ⟨-, rfl⟩ | h
    · exact Or.inl rfl
    · exact Or.inr rfl
    · simp at h
  | forceClose =>
    simp only [Call.body, TcpConnection.forceClose] at h
    split at h
    · simp only [List.mem_cons, Micro.setState.injEq, reduceCtorEq, List.not_mem_nil, or_false] at h
      exact Or.inr h.2
    · simp at h
  | forceCloseWithDelay =>
    simp only [Call.body, TcpConnection.forceCloseWithDelay] at h
    split at h
    · simp only [List.mem_cons, Micro.setState.injEq, reduceCtorEq, List.not_mem_nil, or_false] at h
      exact Or.inr h.2
    · simp at h
  | startRead => simp [Call.body, TcpConnection.startRead] at h
  | stopRead => simp [Call.body, TcpConnection.stopRead] at h

/-- **Every step of a connection is a step of its life.** -/
theorem life_stepped {s t : Conn ι β} {a : Act} (hb : Base s) (h : Stepped s a t) :
    Life.Step s.life (s.writing a) t.life := by
  have hstay : t.life = s.life → Life.Step s.life (s.writing a) t.life := fun he => he ▸ .stay
  cases h with
  | @poll evs l r hs hw hf =>
    refine hstay (life_eq rfl ?_ rfl)
    simp [hs, List.filterMap_append, List.filterMap_map, Function.comp_def, Frame.owed]
  | @ran _ w r f u _ hu hr ht =>
    have hl : u.life = s.life := by
      cases hu with
      | functors hs | onClose hs | onError hs | onRead hs | onWrite hs =>
        exact life_eq rfl (by simp [hs, Frame.owed, List.filterMap_cons]) rfl
      | enter => rfl
      | call => exact (dataStep_emit s rfl).life
    exact hl ▸ ht.life
  | @called _ l w c u _ hu hr ht =>
    have hl : u.life = s.life := by cases hu <;> rfl
    rw [hu.writing, ← hl]
    exact ht.life
  | refused | stuck | queue => exact .stay
  | removed hs =>
    have hst := Life.Step.removed (l := s.life) (w := .none) (show s.life.owed =
      .remove :: s.stack.tail.filterMap Frame.owed by simp [life, hs, Frame.owed])
    simpa [life, hs, Effect.isLife, writing, Frame.owed, List.filter_cons] using hst
  | closeCallback hs =>
    have hst := Life.Step.closeCallback (l := s.life) (w := .none) (show s.life.owed =
      .closeCallback :: s.stack.tail.filterMap Frame.owed by simp [life, hs, Frame.owed])
    simpa [life, hs, Effect.isLife, writing, Frame.owed, List.filter_cons] using hst
  | @handle w r c rest hs =>
    refine hstay (life_eq rfl ?_ rfl)
    by_cases hc : c = s.channel <;> simp [hs, hc, Frame.owed, List.filterMap_cons]
  | @skip w r f rest hs hf =>
    refine hstay (life_eq rfl ?_ rfl)
    have hfo : f.owed = none := by cases f <;> first | rfl | cases hf
    simp [hs, hfo]
  | handled hs | eventsDone hs | doPendingFunctors hs | ret hs =>
    exact hstay (life_eq rfl (by simp [hs, Frame.owed, List.filterMap_cons]) rfl)
  | begin hs => exact hstay (life_eq rfl rfl (by simp [Effect.isLife]))
  | @write n fn st ms hs =>
    obtain ⟨c, st', hm⟩ := hb.threads n (.setState fn st) (hs ▸ List.mem_cons_self)
    have hw : s.writing (.micro n) = .micro := by simp [writing, hs]
    have hst := Life.Step.write (l := s.life) (f := fn) (setState_of_body hm)
    rw [hw]
    simpa [life, Effect.isLife, List.filter_cons] using hst
  | defer hs hm => exact hstay (life_eq rfl rfl (by simp [queueInLoop, emit, Effect.isLife]))

theorem phase_stepped {s t : Conn ι β} {a : Act} (hb : Base s)
    (hw : s.state = .kDisconnected → s.writing a = .none) (h : Stepped s a t)
    (hp : s.life.Phase) : t.life.Phase :=
  Life.phase_step hw (life_stepped hb h) hp

omit [DecidableEq ι] in
theorem phase_init (r : Reactor ι) (c : ι) (mark : Nat) (hw wc : Bool) :
    (init r c mark hw wc : Conn ι β).life.Phase := by
  constructor <;> simp [init, life, Life.downs, Life.closes, Life.closeCallbacks]

end Conn

end SimpleNet
