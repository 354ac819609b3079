import SimpleNet.Server.Table

/-!
# The destructor of a server

The destructor hands the connections of the map to their loops and then lets the pool's loops
quit.  It does not look at the closes that are on their way: a `removeConnectionInLoop` that
waits in the accept loop, or a `closeCallback_` that comes later, runs on the destroyed server
(`destroyed_in_close`).  And a loop that is told to quit while it runs a batch does not come to
what was queued behind this batch.

`destroyed_once`: where the destructor cuts into nothing of this kind, each accepted connection
is destroyed at most once, exactly once when its loop is done, and the destroyed server is not
used.
-/

namespace SimpleNet

/-- The functor is a `connectDestroyed`. -/
def Task.destroys : Task → Bool
  | .connectDestroyed _ => true
  | _ => false

namespace TcpServer

/-- The loop has run all its functors, or will run no other. -/
def Drained (s : TcpServer) (l : Nat) : Prop :=
  (s.loops l).functors.queue = [] ∨ (s.loops l).phase = .stopped

/-- Destroying the server was safe so far. -/
structure DestroyedOnce (s : TcpServer) : Prop where
  /-- no member function has run on the destroyed server -/
  dangling : s.dangling = false
  home : ∀ l c, .ran l (.connectDestroyed c) ∈ s.trace → l = c.loop
  once : ∀ c ∈ s.accepted, s.trace.count (.ran c.loop (.connectDestroyed c)) ≤ 1
  all : s.life = .destroyed → ∀ c ∈ s.accepted, s.Drained c.loop →
    s.trace.count (.ran c.loop (.connectDestroyed c)) = 1

/-- Where the destructor is safe: it does not cut into a close, no close starts after it, and no
loop is told to quit before it comes to a `connectDestroyed`. -/
def DestroyOk (s : TcpServer) : Act → Prop
  | .quit l => (s.loops l).phase = .functors → ∀ f ∈ (s.loops l).functors.pending, f.destroys = false
  | a => AccountOk s a

instance (s : TcpServer) : (a : Act) → Decidable (DestroyOk s a)
  | .accept => inferInstanceAs (Decidable (_ < _))
  | .handleClose _ => inferInstanceAs (Decidable (s.life = .alive))
  | .closeCallback l => inferInstanceAs (Decidable (∀ c ∈ (s.loops l).closing, _))
  | .destroy => inferInstanceAs (Decidable ((∀ f ∈ (s.loops 0).functors.queue, f.last = true) ∧
      ∀ l ≤ s.numLoops, (s.loops l).closing = none))
  | .quit l => inferInstanceAs (Decidable ((s.loops l).phase = .functors → _))
  | .doPendingFunctors _ | .run _ | .iterate _ | .destroyNext _ | .destroyed => .isTrue trivial

theorem DestroyOk.account {s : TcpServer} {a : Act} (h : DestroyOk s a) : AccountOk s a := by
  cases a with
  | quit l => trivial
  | _ => exact h

/-- A loop that quits leaves no `connectDestroyed` behind. -/
structure Lossless (s : TcpServer) : Prop where
  quit : ∀ l, (s.loops l).quit = true → s.life = .destroying [] ∨ s.life = .destroyed
  pending : ∀ l, (s.loops l).quit = true → (s.loops l).phase ≠ .events →
    ∀ f ∈ (s.loops l).functors.pending, f.destroys = false
  stopped : ∀ l, (s.loops l).phase = .stopped → (s.loops l).quit = true

section

variable {s t : TcpServer} {a : Act} {l : Nat} {x : ServerLoop}

/-- Before the loops are told to quit, the queues do not matter. -/
theorem Lossless.still (h : Lossless s) (hs : Still s.loops t.loops)
    (hl : ¬ (s.life = .destroying [] ∨ s.life = .destroyed)) : Lossless t := by
  have hq : ∀ l, (t.loops l).quit ≠ true := by
    intro l hq
    rw [hs.quit] at hq
    exact hl (h.quit l hq)
  refine ⟨fun l hl => absurd hl (hq l), fun l hl => absurd hl (hq l), ?_⟩
  intro l hp
  rw [hs.phase] at hp
  rw [hs.quit]
  exact h.stopped l hp

theorem Lossless.setLoop (h : Lossless s)
    (hq : x.quit = true → s.life = .destroying [] ∨ s.life = .destroyed)
    (hp : x.quit = true → x.phase ≠ .events → ∀ f ∈ x.functors.pending, f.destroys = false)
    (hs : x.phase = .stopped → x.quit = true) : Lossless (s.setLoop l x) := by
  refine ⟨fun k hk => ?_, fun k hk => ?_, fun k hk => ?_⟩ <;> by_cases hkl : k = l
  · rw [hkl, setLoop_self] at hk
    exact hq hk
  · rw [setLoop_of_ne _ hkl] at hk
    exact h.quit k hk
  · rw [hkl, setLoop_self] at hk ⊢
    exact hp hk
  · rw [setLoop_of_ne _ hkl] at hk ⊢
    exact h.pending k hk
  · rw [hkl, setLoop_self] at hk ⊢
    exact hs hk
  · rw [setLoop_of_ne _ hkl] at hk ⊢
    exact h.stopped k hk

theorem Lossless.setLife (h : Lossless s) {y : ServerLife}
    (hy : s.life = .destroying [] ∨ s.life = .destroyed → y = .destroying [] ∨ y = .destroyed) :
    Lossless { s with life := y } :=
  ⟨fun l hl => hy (h.quit l hl), h.pending, h.stopped⟩

/-- The queues grow only before the loops are told to quit, so a loop that quits is left with
what its last batch takes. -/
theorem lossless_stepped (h : ServerInv s) (hi : Lossless s) (hok : DestroyOk s a)
    (hst : Stepped s a t) : Lossless t := by
  cases hst with
  | accept ha =>
    refine hi.still ?_ (by simp [ha])
    exact still_runInLoop { s.emit _ with
      next := _, nextConnId := _, connections := _, accepted := _ } _ _ _
  | handleClose c hc => exact hi.setLoop (hi.quit _) (hi.pending _) (hi.stopped _)
  | closeCallback l c hc =>
    have ha : s.life = .alive := by
      by_contra hn
      rw [(h.quiet hn).2] at hc
      cases hc
    have hi' : Lossless (s.setLoop l { s.loops l with closing := none }) :=
      hi.setLoop (hi.quit _) (hi.pending _) (hi.stopped _)
    refine hi'.still (still_removeConnection ((s.setLoop l _).emit _) _ _) ?_
    show ¬ (s.life = _ ∨ s.life = _)
    simp [ha]
  | doPendingFunctors l hp => exact hi.setLoop (hi.quit _) (fun _ _ => by simp) (by simp)
  | run l f fs hr hp =>
    have hi' : Lossless (s.pop l) := hi.setLoop (hi.quit _) (hi.pending _) (hi.stopped _)
    by_cases ha : s.life = .alive
    · refine hi'.still (still_runTask _ _ _) ?_
      show ¬ (s.life = _ ∨ s.life = _)
      simp [ha]
    · -- once the destructor runs, no functor calls back
      obtain ⟨-, rfl⟩ := h.placed.tasks l f (Batched.mem_queue_of_rest hr)
      cases f with
      | removeConnectionInLoop c =>
        have hw := (h.quiet ha).1 c
        exact absurd (Batched.mem_queue_of_rest hr) (List.count_eq_zero.mp hw)
      | connectEstablished c | connectDestroyed c => exact ⟨hi'.quit, hi'.pending, hi'.stopped⟩
  | iterate l hp hr =>
    refine hi.setLoop (hi.quit _) (fun hq _ => hi.pending _ hq (by simp [hp])) ?_
    intro hs
    by_contra hq
    simp [hq] at hs
  | destroy ha => exact hi.setLife (by simp [ha])
  | destroyNext c rest hl hc =>
    refine hi.still (still_runInLoop { s with life := .destroying (rest.erase c) } _ _ _) ?_
    rw [hl]
    rintro (hn | hn)
    · rw [ServerLife.destroying.inj hn] at hc
      cases hc
    · cases hn
  | destroyed hl => exact hi.setLife fun _ => Or.inr rfl
  | quit l hl =>
    refine hi.setLoop (fun _ => hl) ?_ fun _ => rfl
    intro _ hp
    cases hph : (s.loops l).phase with
    | events => exact absurd hph hp
    | functors => exact hok hph
    | stopped => exact hi.pending l (hi.stopped l hph) hp

theorem waiting_of_drained (hb : Batches s.loops) (hi : Lossless s) {c : TcpConnectionPtr}
    (hd : s.Drained c.loop) : s.waiting (.connectDestroyed c) = 0 := by
  apply List.count_eq_zero.mpr
  intro hm
  change _ ∈ (s.loops c.loop).functors.queue at hm
  rcases hd with hq | hp
  · rw [hq] at hm
    cases hm
  · rcases List.mem_append.mp hm with hm | hm
    · rw [hb c.loop (by simp [hp])] at hm
      cases hm
    · exact Bool.noConfusion (hi.pending c.loop (hi.stopped c.loop hp) (by simp [hp]) _ hm)

theorem destroyedOnce_of_inv (h : ServerInv s) (hb : Batches s.loops) (hi : Lossless s) :
    DestroyedOnce s where
  dangling := h.dangling
  home l c hc := h.placed.ran l _ (Or.inl hc)
  once c hc := by
    have hplace := (h.account c hc).place
    show s.ran (.connectDestroyed c) ≤ 1
    omega
  all hl c hc hd := by
    have hplace := (h.account c hc).place
    have hheld : s.held c = 0 := by rw [TcpServer.held, hl]
    rw [hheld, waiting_of_drained hb hi hd] at hplace
    show s.ran (.connectDestroyed c) = 1
    omega

end

/-- **Destroying the server is safe** in every run whose steps are `DestroyOk`. -/
theorem destroyed_once {name ipPort : Text} (n : Nat) (hip : ipPort.length ≤ 51) {as : List Act}
    {t : TcpServer}
    (hrun : Steps.run (Steps.guarded DestroyOk step) (init name ipPort n) as = some t) :
    DestroyedOnce t := by
  have h : ServerInv t ∧ Batches t.loops ∧ Lossless t := by
    refine Steps.run_invariant (I := fun s => ServerInv s ∧ Batches s.loops ∧ Lossless s) ?_ ?_ hrun
    · rintro s a u ⟨h, hb, hi⟩ hs
      obtain ⟨hok, hs⟩ := Steps.guarded_eq_some.mp hs
      have hs := step_stepped hs
      exact ⟨serverInv_stepped h hb hok.account hs, batches_stepped hb hs, lossless_stepped h hi hok hs⟩
    · exact ⟨serverInv_init n hip, fun _ _ => rfl, by simp [init], by simp [init], by simp [init]⟩
  exact destroyedOnce_of_inv h.1 h.2.1 h.2.2

/-- Of two connections the first has closed when the destructor comes; the loops of the pool
run what they have got and quit. -/
def destroyRest : List Act :=
  let d : TcpConnectionPtr := ⟨1, 2, "s-127.0.0.1:80#2".toList⟩
  closesFirst ++ [.iterate 1, .destroy, .destroyNext d, .destroyed, .quit 1, .quit 2,
    .doPendingFunctors 2, .run 2, .run 2, .iterate 2, .doPendingFunctors 1, .iterate 1]

theorem destroyed_once_rest : ∃ t, Steps.run (Steps.guarded DestroyOk step)
    (init "s".toList "127.0.0.1:80".toList 2) destroyRest = some t ∧ t.life = .destroyed ∧
    t.accepted.length = 2 ∧ ((t.loops 1).phase = .stopped ∧ (t.loops 2).phase = .stopped) ∧
    DestroyedOnce t := by
  have hobs : (Steps.run (Steps.guarded DestroyOk step) (init "s".toList "127.0.0.1:80".toList 2)
      destroyRest).any (fun t => decide (t.life = .destroyed ∧ t.accepted.length = 2 ∧
        (t.loops 1).phase = .stopped ∧ (t.loops 2).phase = .stopped)) = true := by decide
  obtain ⟨t, ht, hobs⟩ := (Option.any_eq_true _ _).mp hobs
  obtain ⟨h1, h2, h3⟩ := of_decide_eq_true hobs
  exact ⟨t, ht, h1, h2, h3, destroyed_once 2 (by decide) ht⟩

/-- The only connection has closed in its loop, and its `removeConnectionInLoop` waits in the
accept loop when the destructor comes. -/
def destroyInClose : List Act :=
  let c : TcpConnectionPtr := ⟨0, 1, "s-127.0.0.1:80#1".toList⟩
  [.accept, .doPendingFunctors 1, .run 1, .iterate 1, .handleClose c, .closeCallback 1, .destroy,
    .destroyNext c, .destroyed, .doPendingFunctors 0, .run 0]

/-- The destructor cuts into a close: `removeConnectionInLoop` runs on the destroyed server. -/
theorem destroyed_in_close : ∃ t, Steps.run step (init "s".toList "127.0.0.1:80".toList 1)
    destroyInClose = some t ∧ ¬ DestroyedOnce t := by
  have hobs : (Steps.run step (init "s".toList "127.0.0.1:80".toList 1) destroyInClose).any
      (fun t => t.dangling) = true := by decide
  obtain ⟨t, ht, hd⟩ := (Option.any_eq_true _ _).mp hobs
  refine ⟨t, ht, ?_⟩
  intro h
  rw [h.dangling] at hd
  cases hd

end TcpServer

end SimpleNet
