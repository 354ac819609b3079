import SimpleNet.Connection.Life

/-!
# What waits in the queue

`Holds s f` says that `f` is queued, in the batch that is being run, or in a call that
another thread has not finished.  The connection itself puts only `Queueable` functors
there, so no callback of its channel is ever run from the queue, and no `sendInLoop`
before the connection is up (`held_stepped`).
-/

namespace SimpleNet

open Function (update)

theorem Functor.Queueable.mono {st st' : StateE} {f : Functor} (h : f.Queueable st)
    (hst : st' = .kConnecting → st = .kConnecting) : f.Queueable st' := by
  cases f <;> first | exact h | exact fun he => h (hst he)

namespace Conn

variable {ι β : Type}

/-- The functor `f` waits to be run by the loop. -/
def Holds (s : Conn ι β) (f : Functor) : Prop :=
  f ∈ s.pendingFunctors ∨ (∃ b, .functors b ∈ s.stack ∧ f ∈ b) ∨
    ∃ n, .runInLoop f ∈ s.threads n ∨ .queueInLoop f ∈ s.threads n

/-- Only `Queueable` functors wait. -/
def Held (s : Conn ι β) : Prop := ∀ f, Holds s f → f.Queueable s.state

theorem Holds.of_parts {s t : Conn ι β} {f : Functor} (h : Holds t f)
    (hp : t.pendingFunctors = s.pendingFunctors)
    (hs : ∀ b, .functors b ∈ t.stack → .functors b ∈ s.stack) (ht : t.threads = s.threads) :
    Holds s f := by
  unfold Holds at h
  rw [hp, ht] at h
  exact h.imp_right (Or.imp_left fun ⟨b, hb, hf⟩ => ⟨b, hs b hb, hf⟩)

theorem mem_update_threads {th : Nat → List Micro} {n k : Nat} {ms : List Micro} {m : Micro}
    (h : m ∈ update th n ms k) : m ∈ th k ∨ k = n ∧ m ∈ ms := by
  by_cases hk : k = n
  · subst hk
    rw [Function.update_self] at h
    exact Or.inr ⟨rfl, h⟩
  · rw [Function.update_of_ne hk] at h
    exact Or.inl h

/-- A thread that goes on has no new accesses. -/
theorem mem_threads_of_tail {th : Nat → List Micro} {n k : Nat} {m' : Micro} {ms : List Micro}
    (hn : th n = m' :: ms) {m : Micro} (h : m ∈ update th n ms k) : m ∈ th k := by
  rcases mem_update_threads h with h | ⟨hk, h⟩
  · exact h
  · rw [hk, hn]
    exact List.mem_cons_of_mem _ h

/-- What the server and other objects do with a connection: they run `connectEstablished`
and `connectDestroyed`, or queue a functor. -/
def Proper (s : Conn ι β) : Act → Prop
  | .enter f _ _ => f = .connectEstablished ∨ f = .connectDestroyed ∨ f = .other
  | .queue f => f.Queueable s.state
  | _ => True

instance (s : Conn ι β) : (a : Act) → Decidable (s.Proper a)
  | .enter f _ _ => inferInstanceAs (Decidable (f = _ ∨ f = _ ∨ f = _))
  | .queue f => inferInstanceAs (Decidable (f.Queueable s.state))
  | .poll _ | .go .. | .call .. | .ret | .fire _ | .offCall _ | .begin .. | .micro _ =>
    .isTrue trivial

/-- The batch that a position is running. -/
def batchOf : List (Frame ι) → List Functor
  | .functors b :: _ => b
  | _ => []

/-- The rest of the batch that `doPendingFunctors` is running. -/
def batch (s : Conn ι β) : List Functor := batchOf s.position

/-- The functors that wait, in the order in which they will run. -/
def queue (s : Conn ι β) : List Functor := s.batch ++ s.pendingFunctors

theorem queue_queueInLoop (s : Conn ι β) (f : Functor) :
    (s.queueInLoop f).queue = s.queue ++ [f] :=
  (List.append_assoc _ _ _).symm

theorem batchOf_tail {c : ι} {f : Frame ι} {fs : List (Frame ι)} (h : Position c (f :: fs))
    (hf : ∀ b, f = .functors b → b = []) : batchOf fs = batchOf (f :: fs) := by
  have hactive : ∀ l : List ι, batchOf (Frame.active l) = [] := fun l => by cases l <;> rfl
  rcases h.cons_cases with ⟨⟨b, rfl⟩ | rfl, rfl⟩ | ⟨rfl, rfl⟩ | ⟨d, l, rfl, -, rfl⟩ |
    ⟨ds, l, hd, -, -, rfl⟩
  · obtain rfl := hf b rfl
    rfl
  · rfl
  · rfl
  · exact hactive l
  · simp only [Frame.guarded, List.suffix_cons_iff, List.cons.injEq, List.suffix_nil,
      reduceCtorEq, or_false] at hd
    rcases hd with ⟨rfl, rfl⟩ | ⟨rfl, rfl⟩ | ⟨rfl, rfl⟩ | ⟨rfl, rfl⟩ | ⟨rfl, rfl⟩
    · rfl
    · rfl
    · rfl
    · rfl
    · exact hactive l

/-- The batch stays when another frame comes off the stack. -/
theorem batch_of_pop {s t : Conn ι β} {f : Frame ι} {rest : List (Frame ι)}
    (hp : Position s.channel s.position) (hs : s.stack = f :: rest)
    (hf : ∀ b, f = .functors b → b = []) (ht : t.stack = rest) : t.batch = s.batch := by
  cases hc : f.isCallback with
  | true => rw [batch, batch, position_of_callback hs hc, Conn.position, ht]
  | false =>
    rw [position_of_loop hs hc] at hp
    rw [batch, batch, position_of_loop hs hc, position_eq_stack ht hp.tail, batchOf_tail hp hf]

/-- A functor of the batch is taken off the queue when it runs. -/
theorem Runs.queue {s u : Conn ι β} {a : Act} {w : WriteResult} {r : ReadResult} {f : Functor}
    (h : Runs s a w r f u) (hp : Position s.channel s.position) :
    s.queue = f :: u.queue ∨ u.queue = s.queue ∧ ∀ b rest, s.stack ≠ .functors b :: rest := by
  have hpop : ∀ {g : Frame ι} {rest : List (Frame ι)}, s.stack = g :: rest →
      (∀ b, g ≠ .functors b) → u.stack = rest → u.pendingFunctors = s.pendingFunctors →
      u.queue = s.queue ∧ ∀ b rest, s.stack ≠ .functors b :: rest := by
    intro g rest hs hg hus hpf
    refine ⟨?_, fun b rest' hb => hg b (List.cons.inj (hs.symm.trans hb)).1⟩
    rw [Conn.queue, Conn.queue, hpf, batch_of_pop hp hs (fun b hb => absurd hb (hg b)) hus]
  have huser : (s.inUser = true ∨ s.stack = []) → ∀ b rest, s.stack ≠ .functors b :: rest := by
    intro h b rest hs
    rcases h with h | h
    · obtain ⟨rest', h⟩ := inUser_iff.mp h
      cases hs.symm.trans h
    · cases hs.symm.trans h
  cases h with
  | functors hs =>
    left
    rw [Conn.queue, Conn.queue, batch, batch, position_of_loop hs rfl, position_of_loop rfl rfl]
    rfl
  | onClose hs => exact Or.inr (hpop hs (by simp) rfl rfl)
  | onError hs => exact Or.inr (hpop hs (by simp) rfl rfl)
  | onRead hs => exact Or.inr (hpop hs (by simp) rfl rfl)
  | onWrite hs => exact Or.inr (hpop hs (by simp) rfl rfl)
  | enter hs => exact Or.inr ⟨rfl, huser hs⟩
  | call hs => exact Or.inr ⟨rfl, huser (Or.inl hs)⟩

theorem Held.of_holds {s t : Conn ι β} (h : Held s)
    (hst : t.state = .kConnecting → s.state = .kConnecting)
    (ht : ∀ f, Holds t f → Holds s f ∨ f.Queueable t.state) : Held t := by
  intro f hf
  rcases ht f hf with hf | hf
  · exact (h f hf).mono hst
  · exact hf

theorem queueable_of_body {c : Call} {st : StateE} {f : Functor}
    (h : .runInLoop f ∈ c.body st ∨ .queueInLoop f ∈ c.body st) : f.Queueable st := by
  cases c with
  | send m =>
    simp only [Call.body, TcpConnection.send] at h
    split at h
    · next hst =>
      simp only [List.mem_singleton, Micro.runInLoop.injEq, reduceCtorEq, or_false] at h
      subst h
      simp [Functor.Queueable, hst]
    · simp at h
  | shutdown =>
    simp [Call.body, TcpConnection.shutdown] at h
    exact h ▸ trivial
  | forceClose =>
    simp only [Call.body, TcpConnection.forceClose] at h
    split at h
    · simp at h; exact h ▸ trivial
    · simp at h
  | forceCloseWithDelay =>
    simp only [Call.body, TcpConnection.forceCloseWithDelay] at h
    split at h
    · simp at h; exact h ▸ trivial
    · simp at h
  | startRead =>
    simp [Call.body, TcpConnection.startRead] at h
    exact h ▸ trivial
  | stopRead =>
    simp [Call.body, TcpConnection.stopRead] at h
    exact h ▸ trivial

theorem Runs.holds {s u : Conn ι β} {a : Act} {w : WriteResult} {r : ReadResult} {f : Functor}
    (h : Runs s a w r f u) {g : Functor} (hg : Holds u g) : Holds s g := by
  cases h with
  | @functors w r f fs rest hs =>
    refine hg.imp_right (Or.imp_left ?_)
    rintro ⟨b, hb, hgb⟩
    rcases List.mem_cons.mp hb with hb | hb
    · obtain rfl := Frame.functors.inj hb
      exact ⟨f :: b, hs ▸ List.mem_cons_self, List.mem_cons_of_mem _ hgb⟩
    · exact ⟨b, hs ▸ List.mem_cons_of_mem _ hb, hgb⟩
  | onClose hs | onError hs | onRead hs | onWrite hs =>
    exact hg.of_parts rfl (fun b hb => hs ▸ List.mem_cons_of_mem _ hb) rfl
  | enter => exact hg
  | call => exact hg

/-- No `sendInLoop` runs before the connection is up. -/
theorem Runs.sendInLoop {s u : Conn ι β} {a : Act} {w : WriteResult} {r : ReadResult}
    {m : Message} (hu : Runs s a w r (.sendInLoop m) u) (hh : Held s) (ha : s.Proper a) :
    s.state ≠ .kConnecting := by
  cases hu with
  | functors hs => exact hh (.sendInLoop m) (Or.inr (Or.inl ⟨_, hs ▸ List.mem_cons_self, by simp⟩))
  | enter => rcases ha with ha | ha | ha <;> cases ha
  | call hs hc =>
    rcases Call.direct_cases hc with ⟨m', -, hst⟩ | hf | hf
    · simp [hst]
    · cases hf
    · cases hf

variable [DecidableEq ι]

theorem DataStep.holds {s t : Conn ι β} (h : DataStep s t) {f : Functor} (hf : Holds t f) :
    Holds s f ∨ f.Queueable s.state := by
  obtain ⟨fs, hfs, hq⟩ := h.pending
  rcases hf with hf | hf | hf
  · rw [hfs] at hf
    rcases List.mem_append.mp hf with hf | hf
    · exact Or.inl (Or.inl hf)
    · exact Or.inr (hq f hf)
  · rw [h.stack] at hf
    exact Or.inl (Or.inr (Or.inl hf))
  · rw [h.threads] at hf
    exact Or.inl (Or.inr (Or.inr hf))

theorem Ran.holds {u t : Conn ι β} {r : ReadResult} {f : Functor} (h : Ran u r f t) {g : Functor}
    (hg : Holds t g) : Holds u g ∨ g.Queueable u.state := by
  cases h with
  | data hd => exact hd.holds hg
  | user | message | up | destroyed | remove | closed =>
    refine Or.inl (hg.of_parts rfl ?_ rfl)
    intro b hb
    simpa [push, emit, Conn.up, Conn.down] using hb

variable [Fifo β UInt8]

theorem kConnecting_stepped {s t : Conn ι β} {a : Act} (hb : Base s) (h : Stepped s a t)
    (ht : t.state = .kConnecting) : s.state = .kConnecting := by
  have hstep := life_stepped hb h
  generalize hl : t.life = l at hstep
  generalize s.writing a = w at hstep
  have hls : l.state = .kConnecting := hl ▸ ht
  cases hstep with
  | stay | remove | closeCallback | removed => exact hls
  | up | closed | destroyed | shutdown | close => cases hls
  | write hst => rcases hst with hst | hst <;> rw [hst] at hls <;> cases hls

theorem live_stepped {s t : Conn ι β} {a : Act} (hb : Base s) (h : Stepped s a t)
    (hs : s.state.Live) (ht : t.state ≠ .kDisconnected) : t.state.Live := by
  refine StateE.live_of_ne ?_ ht
  intro hk
  rw [kConnecting_stepped hb h hk] at hs
  rcases hs with hs | hs <;> cases hs

/-- **The queue holds only `Queueable` functors**, if other objects are `Proper`. -/
theorem held_stepped {s t : Conn ι β} {a : Act} (hb : Base s)
    (ha : s.Proper a) (h : Stepped s a t) (hh : Held s) : Held t := by
  have hmono := kConnecting_stepped hb h
  apply hh.of_holds hmono
  intro g hg
  have hpop : ∀ {u : Conn ι β} {f : Frame ι} {rest : List (Frame ι)}, Holds u g →
      s.stack = f :: rest → (∀ b, .functors b ∈ u.stack → .functors b ∈ rest) →
      u.pendingFunctors = s.pendingFunctors → u.threads = s.threads → Holds s g :=
    fun hg hs hu hp ht => hg.of_parts hp (fun b hb => hs ▸ List.mem_cons_of_mem _ (hu b hb)) ht
  cases h with
  | @ran _ w r f u _ hu hr hran =>
    have hstate : u.state = s.state := by cases hu <;> rfl
    exact (hran.holds hg).imp hu.holds fun h => h.mono (hstate ▸ hmono)
  | @called _ l w c u _ hu hr ht =>
    have hstate : u.state = s.state := by cases hu <;> rfl
    have hus : Holds u g → Holds s g := by
      intro hg
      cases hu <;> exact hg
    cases ht with
    | data hd hr => exact (hd.holds hg).imp hus fun h => h.mono (hstate ▸ hmono)
    | shutdown hd hr => exact (hd.holds hg).imp hus fun h => hd.state ▸ h
    | close hc hl hd hr => exact (hd.holds hg).imp hus fun h => hd.state ▸ h
  | poll hs =>
    refine Or.inl (hg.of_parts rfl ?_ rfl)
    intro b hb
    simp at hb
  | refused | stuck => exact Or.inl hg
  | removed hs => exact Or.inl (hpop hg hs (fun _ h => h) rfl rfl)
  | closeCallback hs => exact Or.inl (hpop hg hs (fun _ h => h) rfl rfl)
  | handle hs =>
    refine Or.inl (hpop hg hs ?_ rfl rfl)
    intro b hb
    simp only at hb
    split at hb <;> simpa using hb
  | skip hs => exact Or.inl (hpop hg hs (fun _ h => h) rfl rfl)
  | handled hs => exact Or.inl (hpop hg hs (fun _ h => h) rfl rfl)
  | eventsDone hs => exact Or.inl (hpop hg hs (fun _ h => h) rfl rfl)
  | ret hs => exact Or.inl (hpop hg hs (fun _ h => h) rfl rfl)
  | doPendingFunctors hs =>
    left
    rcases hg with hg | ⟨b, hbm, hgb⟩ | hg
    · cases hg
    · rcases List.mem_cons.mp hbm with hbm | hbm
      · exact Or.inl (Frame.functors.inj hbm ▸ hgb)
      · exact Or.inr (Or.inl ⟨b, hs ▸ List.mem_cons_of_mem _ hbm, hgb⟩)
    · exact Or.inr (Or.inr hg)
  | @queue f =>
    rcases hg with hg | hg
    · rcases List.mem_append.mp hg with hg | hg
      · exact Or.inl (Or.inl hg)
      · exact Or.inr (List.mem_singleton.mp hg ▸ ha)
    · exact Or.inl (Or.inr hg)
  | begin hs =>
    rcases hg with hg | hg | ⟨k, hg⟩
    · exact Or.inl (Or.inl hg)
    · exact Or.inl (Or.inr (Or.inl hg))
    · rcases hg with hg | hg
      · exact (mem_update_threads hg).imp (fun h => Or.inr (Or.inr ⟨k, Or.inl h⟩))
          fun h => queueable_of_body (Or.inl h.2)
      · exact (mem_update_threads hg).imp (fun h => Or.inr (Or.inr ⟨k, Or.inr h⟩))
          fun h => queueable_of_body (Or.inr h.2)
  | write hs =>
    left
    rcases hg with hg | hg | ⟨k, hg⟩
    · exact Or.inl hg
    · exact Or.inr (Or.inl hg)
    · exact Or.inr (Or.inr ⟨k, hg.imp (mem_threads_of_tail hs) (mem_threads_of_tail hs)⟩)
  | @defer n m f ms hs hm =>
    left
    have hf : Holds s f := by
      rcases hm with rfl | rfl
      · exact Or.inr (Or.inr ⟨n, Or.inl (hs ▸ List.mem_cons_self)⟩)
      · exact Or.inr (Or.inr ⟨n, Or.inr (hs ▸ List.mem_cons_self)⟩)
    rcases hg with hg | hg | ⟨k, hg⟩
    · rcases List.mem_append.mp hg with hg | hg
      · exact Or.inl hg
      · exact List.mem_singleton.mp hg ▸ hf
    · exact Or.inr (Or.inl hg)
    · exact Or.inr (Or.inr ⟨k, hg.imp (mem_threads_of_tail hs) (mem_threads_of_tail hs)⟩)

end Conn

end SimpleNet
