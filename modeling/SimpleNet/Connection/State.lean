import SimpleNet.Connection.Down

/-!
# `state_` only moves forward

`state_forward`: in every run in which `shutdown()` is called only on a connection that is
`kConnected`, and `connectDestroyed` does not complete on one that is `kConnecting` or
`kDisconnecting`, each write of `state_` is a move forward, a connection that was
disconnected stays so, and it is disconnected when `connectDestroyed` has returned.

`shutdown()` tests `if(state_ = kConnected)`, so it takes any other state back
(`shutdown_revives`).
-/

namespace SimpleNet

/-- The moves of `state_`; a write of the value that is there is none. -/
def Forward (fn : Fn) (old new : StateE) : Prop :=
  old = new ∨ fn = .connectEstablished ∧ old = .kConnecting ∧ new = .kConnected ∨
    old = .kConnected ∧ new = .kDisconnecting ∨ old.Live ∧ new = .kDisconnected

instance (fn : Fn) (old new : StateE) : Decidable (Forward fn old new) :=
  inferInstanceAs (Decidable (_ ∨ _ ∨ _ ∨ _))

/-- `state_` after the writes of a log, if each starts from what the last one left. -/
def follow : StateE → List Effect → Option StateE
  | st, [] => some st
  | st, .setState _ old new :: es => if old = st then follow new es else none
  | st, _ :: es => follow st es

theorem follow_append (es fs : List Effect) :
    ∀ st, follow st (es ++ fs) = (follow st es).bind fun st' => follow st' fs := by
  induction es with
  | nil => intro st; rfl
  | cons e es ih =>
    intro st
    cases e with
    | setState fn old new =>
      simp only [List.cons_append, follow]
      split
      · exact ih new
      · rfl
    | _ => exact ih st

theorem follow_filter (es : List Effect) :
    ∀ st, follow st (es.filter Effect.isLife) = follow st es := by
  induction es with
  | nil => intro st; rfl
  | cons e es ih =>
    intro st
    cases e <;> simp [Effect.isLife, follow, ih, List.filter_cons]

/-- Forward moves do not leave `kDisconnected`. -/
theorem follow_final : ∀ {es : List Effect} {st st' : StateE},
    (∀ fn old new, .setState fn old new ∈ es → Forward fn old new) → follow st es = some st' →
    (st = .kDisconnected ∨ ∃ fn old, .setState fn old .kDisconnected ∈ es) →
      st' = .kDisconnected := by
  intro es
  induction es with
  | nil =>
    intro st st' _ h hst
    rcases hst with rfl | ⟨fn, old, hm⟩
    · exact (Option.some.inj h).symm
    · cases hm
  | cons e es ih =>
    intro st st' hf h hst
    have hf' : ∀ fn old new, .setState fn old new ∈ es → Forward fn old new :=
      fun fn old new hm => hf fn old new (List.mem_cons_of_mem _ hm)
    by_cases he : ∃ fn old new, e = .setState fn old new
    · obtain ⟨fn, old, new, rfl⟩ := he
      simp only [follow] at h
      split at h
      · next hold =>
        subst hold
        refine ih hf' h ?_
        rcases hst with rfl | ⟨fn', old', hm⟩
        · left
          rcases hf fn .kDisconnected new List.mem_cons_self with h1 | ⟨-, h1, -⟩ | ⟨h1, -⟩ | ⟨h1, -⟩
          · exact h1.symm
          · cases h1
          · cases h1
          · rcases h1 with h1 | h1 <;> cases h1
        · rcases List.mem_cons.mp hm with heq | hm
          · exact Or.inl (Effect.setState.inj heq).2.2.symm
          · exact Or.inr ⟨fn', old', hm⟩
      · cases h
    · have hskip : follow st (e :: es) = follow st es := by
        cases e with
        | setState fn old new => exact absurd ⟨fn, old, new, rfl⟩ he
        | _ => rfl
      rw [hskip] at h
      refine ih hf' h (hst.imp_right ?_)
      rintro ⟨fn, old, hm⟩
      rcases List.mem_cons.mp hm with heq | hm
      · exact absurd ⟨fn, old, _, heq.symm⟩ he
      · exact ⟨fn, old, hm⟩

namespace Life

/-- The log tells the value of `state_`. -/
def Recorded (l : Life) : Prop := follow .kConnecting l.log = some l.state

theorem recorded_step {l l' : Life} {w : Write} (h : Step l w l') (hr : Recorded l) :
    Recorded l' := by
  unfold Recorded at hr ⊢
  cases h with
  | stay | remove => exact hr
  | up | closed | destroyed | closeCallback | removed | shutdown | close | write =>
    simp [follow_append, hr, follow]

/-- Every write in the log is a move forward. -/
def Forwards (l : Life) : Prop :=
  ∀ fn old new, .setState fn old new ∈ l.log → Forward fn old new

theorem forwards_append {l l' : Life} {es : List Effect} (hl : l'.log = l.log ++ es)
    (hf : Forwards l) (hes : ∀ fn old new, .setState fn old new ∈ es → Forward fn old new) :
    Forwards l' := by
  intro fn old new hm
  rw [hl] at hm
  rcases List.mem_append.mp hm with hm | hm
  · exact hf fn old new hm
  · exact hes fn old new hm

theorem forwards_step {l l' : Life} {w : Write} (hw : w ≠ .micro)
    (hs : w = .shutdown → l.state = .kConnected) (h : Step l w l') (hf : Forwards l) :
    Forwards l' := by
  cases h with
  | stay | remove => exact hf
  | up hst =>
    apply forwards_append rfl hf
    intro fn old new hm
    simp only [List.mem_cons, Effect.setState.injEq, reduceCtorEq, List.not_mem_nil, or_false] at hm
    obtain ⟨rfl, rfl, rfl⟩ := hm
    exact Or.inr (Or.inl ⟨rfl, hst, rfl⟩)
  | closed hst =>
    apply forwards_append rfl hf
    intro fn old new hm
    simp only [List.mem_cons, Effect.setState.injEq, reduceCtorEq, List.not_mem_nil, or_false,
      false_or] at hm
    obtain ⟨rfl, rfl, rfl⟩ := hm
    exact Or.inr (Or.inr (Or.inr ⟨hst, rfl⟩))
  | destroyed hst =>
    apply forwards_append rfl hf
    intro fn old new hm
    simp only [List.mem_cons, Effect.setState.injEq, reduceCtorEq, List.not_mem_nil, or_false] at hm
    obtain ⟨rfl, rfl, rfl⟩ := hm
    exact Or.inr (Or.inr (Or.inr ⟨Or.inl hst, rfl⟩))
  | closeCallback | removed => exact forwards_append rfl hf (by simp)
  | shutdown =>
    have hst := hs rfl
    apply forwards_append rfl hf
    intro fn old new hm
    simp only [List.mem_cons, Effect.setState.injEq, List.not_mem_nil, or_false] at hm
    rcases hm with ⟨rfl, rfl, rfl⟩ | ⟨rfl, rfl, rfl⟩
    · exact Or.inl hst
    · exact Or.inr (Or.inr (Or.inl ⟨rfl, rfl⟩))
  | close hfn hst =>
    apply forwards_append rfl hf
    intro fn old new hm
    simp only [List.mem_singleton, Effect.setState.injEq] at hm
    obtain ⟨rfl, rfl, rfl⟩ := hm
    rcases hst with hst | hst
    · exact Or.inr (Or.inr (Or.inl ⟨hst, rfl⟩))
    · exact Or.inl hst
  | write => exact absurd rfl hw

end Life

namespace Conn

variable {ι β : Type} [DecidableEq ι] [Fifo β UInt8]

/-- `state_` has only moved forward. -/
structure OnlyForward (s : Conn ι β) : Prop where
  /-- the trace has every write of `state_` -/
  recorded : follow .kConnecting s.trace = some s.state
  forward : ∀ fn old new, .setState fn old new ∈ s.trace → Forward fn old new
  final : (∃ fn old, .setState fn old .kDisconnected ∈ s.trace) → s.state = .kDisconnected
  /-- the destructor's assertion -/
  destroyed : .destroyed ∈ s.trace → s.state = .kDisconnected

/-- Where `state_` moves forward. -/
structure ForwardOk (s : Conn ι β) (a : Act) : Prop where
  whole : a.isWhole = true
  /-- `shutdown()` is called on a `kConnected` connection -/
  shutdown : s.writing a = .shutdown → s.state = .kConnected
  /-- where `connectDestroyed` does not disconnect, because the connection is `kConnecting`
  or `kDisconnecting`, its `channel_->remove()` fails -/
  destroy : s.runsFn a = some .connectDestroyed →
    s.state = .kConnecting ∨ s.state = .kDisconnecting → ¬ s.CanRemove s.channel

instance (s : Conn ι β) (a : Act) : Decidable (ForwardOk s a) :=
  decidable_of_iff (a.isWhole = true ∧ (s.writing a = .shutdown → s.state = .kConnected) ∧
      (s.runsFn a = some .connectDestroyed →
        s.state = .kConnecting ∨ s.state = .kDisconnecting → ¬ s.CanRemove s.channel))
    ⟨fun ⟨h1, h2, h3⟩ => ⟨h1, h2, h3⟩, fun ⟨h1, h2, h3⟩ => ⟨h1, h2, h3⟩⟩

omit [DecidableEq ι] [Fifo β UInt8] in
theorem ForwardOk.writing {s : Conn ι β} {a : Act} (h : ForwardOk s a)
    (hs : s.state = .kDisconnected) : s.writing a = .none := by
  cases hw : s.writing a with
  | none => rfl
  | shutdown => rw [h.shutdown hw] at hs; cases hs
  | micro => exact absurd hw (writing_of_isWhole s h.whole)

/-- While the connection is not disconnected, a `channel_->remove()` still to come is the
next thing to run, and `P` holds of the channel. -/
def Stalled (P : Reactor ι → ι → Prop) (s : Conn ι β) : Prop :=
  s.state ≠ .kDisconnected → .destroyed ∉ s.trace ∧ (.remove ∈ s.stack →
    ∃ rest, s.stack = .remove :: rest ∧ .remove ∉ rest ∧ P s.toReactor s.channel)

omit [DecidableEq ι] [Fifo β UInt8] in
/-- Under another frame there is no `remove`. -/
theorem Stalled.not_mem {P : Reactor ι → ι → Prop} {s : Conn ι β} (h : Stalled P s)
    (hs : s.state ≠ .kDisconnected)
    {f : Frame ι} {rest : List (Frame ι)} (hst : s.stack = f :: rest) (hf : f ≠ .remove) :
    .remove ∉ s.stack := by
  intro hm
  obtain ⟨rest', hst', -⟩ := (h hs).2 hm
  rw [hst] at hst'
  exact hf (List.cons.inj hst').1

omit [DecidableEq ι] [Fifo β UInt8] in
theorem Runs.not_mem_remove {s u : Conn ι β} {a : Act} {w : WriteResult} {r : ReadResult}
    {f : Functor} {P : Reactor ι → ι → Prop} (hu : Runs s a w r f u) (h : Stalled P s)
    (hs : s.state ≠ .kDisconnected) : .remove ∉ u.stack := by
  have hpop : ∀ {g : Frame ι} {rest : List (Frame ι)}, s.stack = g :: rest → g ≠ .remove →
      .remove ∉ rest := fun hst hg hm =>
    h.not_mem hs hst hg (hst ▸ List.mem_cons_of_mem _ hm)
  have huser : ∀ {v : Conn ι β}, v.stack = s.stack → (s.inUser = true ∨ s.stack = []) →
      .remove ∉ v.stack := by
    intro v hv hst
    rw [hv]
    rcases hst with hst | hst
    · obtain ⟨rest, hst⟩ := inUser_iff.mp hst
      exact h.not_mem hs hst (by simp)
    · rw [hst]
      exact List.not_mem_nil
  cases hu with
  | functors hst =>
    intro hm
    rcases List.mem_cons.mp hm with hm | hm
    · cases hm
    · exact hpop hst (by simp) hm
  | onClose hst => exact hpop hst (by simp)
  | onError hst => exact hpop hst (by simp)
  | onRead hst => exact hpop hst (by simp)
  | onWrite hst => exact hpop hst (by simp)
  | enter hst => exact huser rfl hst
  | call hst => exact huser rfl (Or.inl hst)

omit [DecidableEq ι] [Fifo β UInt8] in
theorem Stalled.of_eq {P : Reactor ι → ι → Prop} {s t : Conn ι β} (h : Stalled P s)
    (hs : s.state ≠ .kDisconnected) (htr : .destroyed ∈ t.trace → .destroyed ∈ s.trace)
    (hst : .remove ∉ t.stack) : Stalled P t :=
  fun _ => ⟨fun hm => (h hs).1 (htr hm), fun hm => absurd hm hst⟩

omit [DecidableEq ι] [Fifo β UInt8] in
/-- Nothing of the reactor's or the stack changes. -/
theorem Stalled.of_same {P : Reactor ι → ι → Prop} {s t : Conn ι β} (h : Stalled P s)
    (hs : s.state ≠ .kDisconnected) (htr : .destroyed ∈ t.trace → .destroyed ∈ s.trace)
    (hst : t.stack = s.stack) (hr : t.toReactor = s.toReactor) (hc : t.channel = s.channel) :
    Stalled P t := by
  intro _
  rw [hst, hr, hc]
  exact ⟨fun hm => (h hs).1 (htr hm), (h hs).2⟩

omit [Fifo β UInt8] in
/-- A `connectDestroyed` that does not disconnect leaves a `remove` of which `P` holds. -/
theorem stalled_ran {P : Reactor ι → ι → Prop} {s u t : Conn ι β} {a : Act} {w : WriteResult}
    {r : ReadResult} {f : Functor} (hs : s.state ≠ .kDisconnected)
    (hd : s.runsFn a = some .connectDestroyed →
      s.state = .kConnecting ∨ s.state = .kDisconnecting → P s.toReactor s.channel)
    (hu : Runs s a w r f u) (hran : Ran u r f t) (hst : Stalled P s) : Stalled P t := by
  have hno := hu.not_mem_remove hst hs
  have hstate : u.state = s.state := by cases hu <;> rfl
  have htr : .destroyed ∈ u.trace → .destroyed ∈ s.trace := by
    cases hu <;> simp
  cases hran with
  | data hd =>
    exact hst.of_eq hs (fun hm => htr (hd.destroyed hm)) (hd.stack ▸ hno)
  | user => exact hst.of_eq hs htr (by simpa using hno)
  | message => exact hst.of_eq hs (by simpa using htr) (by simpa [emit, push] using hno)
  | up => exact hst.of_eq hs (by simpa [Conn.up] using htr) (by simpa [Conn.up] using hno)
  | destroyed => exact fun hne => absurd rfl hne
  | closed => exact fun hne => absurd rfl hne
  | remove hk =>
    intro hne
    refine ⟨fun hm => (hst hs).1 (htr hm), fun _ => ⟨u.stack, rfl, hno, ?_⟩⟩
    have hrm : P s.toReactor s.channel := by
      refine hd (by rw [runsFn, hu.runs_eq]; rfl) ?_
      rw [hstate] at hk
      cases hc : s.state with
      | kConnecting => exact Or.inl rfl
      | kDisconnecting => exact Or.inr rfl
      | kConnected => exact absurd hc hk
      | kDisconnected => exact absurd hc hs
    rw [push_toReactor, push_channel, hu.toReactor, hu.channel]
    exact hrm

/-- `connectDestroyed` on a connection that is not disconnected leaves a `remove` of which
`P` holds, so that it fails. -/
theorem stalled_stepped {P : Reactor ι → ι → Prop} (hP : ∀ r c, P r c → ¬ r.CanRemove c)
    {s t : Conn ι β} {a : Act} (hb : Base s)
    (hw : s.state = .kDisconnected → s.writing a = .none)
    (hd : s.runsFn a = some .connectDestroyed →
      s.state = .kConnecting ∨ s.state = .kDisconnecting → P s.toReactor s.channel)
    (h : Stepped s a t) (hst : Stalled P s) : Stalled P t := by
  intro ht
  have hs : s.state ≠ .kDisconnected := fun hs =>
    ht (Life.disconnected_step hw (life_stepped hb h) hs)
  revert ht
  -- a frame other than `remove` comes off the stack
  have hpop : ∀ {f : Frame ι} {rest : List (Frame ι)} {u : Conn ι β}, s.stack = f :: rest →
      f ≠ .remove → (.remove ∈ u.stack → .remove ∈ rest) → u.trace = s.trace → Stalled P u :=
    fun hs' hf hu htr => hst.of_eq hs (fun hm => htr ▸ hm) fun hm =>
      hst.not_mem hs hs' hf (hs' ▸ List.mem_cons_of_mem _ (hu hm))
  show Stalled P t
  cases h with
  | ran hu hr hran => exact stalled_ran hs hd hu hran hst
  | called hu hr ht =>
    exact hst.of_same hs (ht.destroyed hu) (ht.spec.2.1.trans hu.spec.2.1)
      (ht.spec.2.2.trans hu.spec.2.2) (ht.spec.1.trans hu.spec.1)
  | poll hs' => exact hst.of_eq hs id (by simp)
  | refused | stuck | queue => exact hst
  | removed hs' hr =>
    obtain ⟨rest, -, -, hno⟩ := (hst hs).2 (hs' ▸ List.mem_cons_self)
    exact absurd hr (hP _ _ hno)
  | closeCallback hs' =>
    apply hst.of_eq hs (by simp)
    intro hm
    exact hst.not_mem hs hs' (by simp) (hs' ▸ List.mem_cons_of_mem _ hm)
  | handle hs' =>
    refine hpop hs' (by simp) ?_ rfl
    intro hm
    split at hm <;> simpa using hm
  | skip hs' hf => exact hpop hs' (by rintro rfl; exact hf) id rfl
  | handled hs' => exact hpop hs' (by simp) id rfl
  | eventsDone hs' => exact hpop hs' (by simp) id rfl
  | doPendingFunctors hs' => exact hpop hs' (by simp) (by simp) rfl
  | ret hs' => exact hpop hs' (by simp) id rfl
  | begin => exact hst.of_same hs (by simp) rfl rfl rfl
  | write => exact hst.of_same hs (by simp) rfl rfl rfl
  | defer => exact hst.of_same hs (by simp [queueInLoop]) rfl rfl rfl

/-- What the runs of `state_forward` keep. -/
structure ForwardInv (s : Conn ι β) : Prop where
  base : Base s
  phase : s.life.Phase
  recorded : s.life.Recorded
  forwards : s.life.Forwards
  stalled : Stalled (fun r c => ¬ r.CanRemove c) s

theorem forwardInv_step {s t : Conn ι β} {a : Act} (h : ForwardInv s)
    (hs : Steps.guarded ForwardOk step s a = some t) : ForwardInv t := by
  obtain ⟨hok, hs⟩ := Steps.guarded_eq_some.mp hs
  obtain ⟨-, hst⟩ := step_stepped h.base.agree hs
  have hl := life_stepped h.base hst
  exact ⟨base_stepped h.base hst, Life.phase_step hok.writing hl h.phase,
    Life.recorded_step hl h.recorded,
    Life.forwards_step (writing_of_isWhole s hok.whole) hok.shutdown hl h.forwards,
    stalled_stepped (fun _ _ h => h) h.base hok.writing hok.destroy hst h.stalled⟩

/-- **`state_` only moves forward** in every run in which `shutdown()` finds the connection
`kConnected` and `connectDestroyed` does not complete on a connection that is `kConnecting`
or `kDisconnecting`. -/
theorem state_forward {r : Reactor ι} {c : ι} (hr : Fresh r c) (mark : Nat) (hw wc : Bool)
    {as : List Act} {t : Conn ι β}
    (hrun : Steps.run (Steps.guarded ForwardOk step) (init r c mark hw wc) as = some t) :
    OnlyForward t := by
  have h0 : ForwardInv (init r c mark hw wc : Conn ι β) := by
    refine ⟨base_init hr mark hw wc, phase_init r c mark hw wc, rfl, ?_, ?_⟩
    · intro fn old new hm
      cases hm
    · intro _
      simp [init]
  have h := Steps.run_invariant (fun _ _ _ h hs => forwardInv_step h hs) h0 hrun
  have hlog : ∀ {e : Effect}, e.isLife = true → e ∈ t.trace → e ∈ t.life.log :=
    fun he hm => List.mem_filter.mpr ⟨hm, he⟩
  have hrec : follow .kConnecting t.trace = some t.state :=
    (follow_filter t.trace .kConnecting).symm.trans h.recorded
  refine ⟨hrec, fun fn old new hm => h.forwards fn old new (hlog rfl hm), ?_, ?_⟩
  · intro hm
    exact follow_final (fun fn old new hm => h.forwards fn old new (hlog rfl hm)) hrec (Or.inr hm)
  · intro hm
    by_contra hne
    exact (h.stalled hne).1 hm

/-- A connection that is shut down by a user, closed by its peer and destroyed. -/
def shutDown : List Act :=
  established ++ [.offCall .shutdown, .poll [(5, POLLIN)]] ++ goes 4 ++ [.ret] ++ goes 7 ++
    [.enter .connectDestroyed (.wrote 0) (.data [])] ++ goes 1

theorem state_forward_closed : ∃ t,
    Steps.run (Steps.guarded ForwardOk step) alone shutDown = some t ∧ OnlyForward t := by
  have hrun : (Steps.run (Steps.guarded ForwardOk step) alone shutDown).isSome = true := by decide
  obtain ⟨t, ht⟩ := Option.isSome_iff_exists.mp hrun
  exact ⟨t, ht, state_forward fresh_alone 64 false true ht⟩

/-- `shutdown()` called in the down callback of `handleClose`. -/
def revived : List Act :=
  established ++ [.poll [(5, POLLIN)]] ++ goes 4 ++ [.call .shutdown (.wrote 0)]

/-- The connection is `kDisconnecting` again. -/
theorem shutdown_revives : ∃ t, Steps.run step alone revived = some t ∧
    t.state = .kDisconnecting ∧ ¬ OnlyForward t := by
  have hobs : (Steps.run step alone revived).any (fun t => decide (t.state = .kDisconnecting ∧
      .setState .shutdown .kDisconnected .kConnected ∈ t.trace)) = true := by decide
  obtain ⟨t, ht, hobs⟩ := (Option.any_eq_true _ _).mp hobs
  obtain ⟨h1, h2⟩ := of_decide_eq_true hobs
  exact ⟨t, ht, h1, fun h => absurd (h.forward _ _ _ h2) (by decide)⟩

end Conn

end SimpleNet
