import SimpleNet.Lib.Before
import SimpleNet.Server.Account

/-!
# The connection table

`table_exact`: in the runs of a server that is not destroyed, with fewer than 2^31 accepted
connections and an `ipPort_` of at most 51 characters, where each connection calls
`closeCallback_` at most once and after its `connectEstablished`:

* the names of the connections are distinct, and no entry of the map is replaced;
* the map holds exactly the connections whose `removeConnectionInLoop` has not run, and each
  erase removes the connection that closes;
* `connectDestroyed` is queued once for each close, in the connection's own loop, and runs
  there after `connectEstablished`.
-/

namespace SimpleNet

namespace TcpServer

/-- The table of a server is exact. -/
structure TableExact (s : TcpServer) : Prop where
  names : (s.accepted.map TcpConnectionPtr.name).Nodup
  /-- no entry is replaced -/
  inserted : ∀ c old, .inserted c old ∈ s.trace → old = none
  entries : ∀ n c, s.connections.lookup n = some c ↔
    c ∈ s.accepted ∧ c.name = n ∧ .ran 0 (.removeConnectionInLoop c) ∉ s.trace
  /-- each erase removes the connection that closes: `n == 1` -/
  erased : ∀ c found, .erased c found ∈ s.trace → found = some c
  asserted : s.aborted = false
  order : ∀ l c p, p ++ [.ran l (.connectDestroyed c)] <+: s.trace →
    l = c.loop ∧ .ran l (.connectEstablished c) ∈ p
  /-- each close has its `removeConnectionInLoop`, which has run or waits -/
  closes : ∀ c, s.trace.count (.closeCallback c) = s.trace.count (.ran 0 (.removeConnectionInLoop c)) +
    (s.loops 0).functors.queue.count (.removeConnectionInLoop c)
  /-- each of these queues `connectDestroyed` once -/
  queued : ∀ c, s.trace.count (.queued c.loop (.connectDestroyed c)) =
    s.trace.count (.ran 0 (.removeConnectionInLoop c))
  home : ∀ l c, .queued l (.connectDestroyed c) ∈ s.trace → l = c.loop

/-- Where the table is exact. -/
def TableOk (s : TcpServer) : Act → Prop
  | .accept => s.accepted.length + 1 < 2 ^ 31
  | .closeCallback l => ∀ c ∈ (s.loops l).closing,
      .closeCallback c ∉ s.trace ∧ .ran c.loop (.connectEstablished c) ∈ s.trace
  | .destroy => False
  | _ => True

instance (s : TcpServer) : (a : Act) → Decidable (TableOk s a)
  | .accept => inferInstanceAs (Decidable (_ < _))
  | .closeCallback l => inferInstanceAs (Decidable (∀ c ∈ (s.loops l).closing, _))
  | .destroy => .isFalse id
  | .handleClose _ | .doPendingFunctors _ | .run _ | .iterate _ | .destroyNext _ | .destroyed
  | .quit _ => .isTrue trivial

theorem TableOk.account {s : TcpServer} {a : Act} (h : TableOk s a) (ha : s.life = .alive) :
    AccountOk s a := by
  cases a with
  | accept => exact h
  | handleClose c => exact ha
  | closeCallback l =>
    intro c hc
    exact ⟨List.count_eq_zero.mpr (h c hc).1, List.count_pos_iff.mpr (h c hc).2⟩
  | destroy => exact h.elim
  | _ => trivial

/-! ### What a step adds to the history -/

/-- The events of a step. -/
inductive Adds (s : TcpServer) : List ServerEvent → Prop
  | nothing : Adds s []
  | accept {c : TcpConnectionPtr} {e : ServerEvent} (he : e = .ran c.loop (.connectEstablished c) ∨
      e = .queued c.loop (.connectEstablished c)) : Adds s [.inserted c none, e]
  | close {c : TcpConnectionPtr} :
      Adds s [.closeCallback c, .queued 0 (.removeConnectionInLoop c)]
  | closeNow {c : TcpConnectionPtr} : Adds s [.closeCallback c, .ran 0 (.removeConnectionInLoop c),
      .erased c (some c), .queued c.loop (.connectDestroyed c)]
  | remove {c : TcpConnectionPtr} : Adds s [.ran 0 (.removeConnectionInLoop c),
      .erased c (some c), .queued c.loop (.connectDestroyed c)]
  | run {f : Task} (hf : f.last = true) (hw : 1 ≤ s.waiting f) : Adds s [.ran f.home f]

section

variable {s t : TcpServer} {a : Act} {c : TcpConnectionPtr}

theorem runTask_trace (hl : s.life ≠ .destroyed) (hc : s.connections.lookup c.name = some c) :
    (s.runTask 0 (.removeConnectionInLoop c)).trace = s.trace ++ [.ran 0 (.removeConnectionInLoop c),
      .erased c (some c), .queued c.loop (.connectDestroyed c)] ∧
    (s.runTask 0 (.removeConnectionInLoop c)).life = s.life := by
  rw [runTask, removeConnectionInLoop_eq (s := s.emit _) hl hc]
  exact ⟨by simp [queueInLoop, setLoop, emit], rfl⟩

theorem runInLoop_trace (s : TcpServer) (cur : Nat) {f : Task} (hf : f.last = true) :
    (∃ e, (e = .ran f.home f ∨ e = .queued f.home f) ∧
      (s.runInLoop cur f.home f).trace = s.trace ++ [e]) ∧
    (s.runInLoop cur f.home f).life = s.life := by
  unfold runInLoop
  split
  · cases f with
    | removeConnectionInLoop => cases hf
    | _ => exact ⟨⟨_, Or.inl rfl, rfl⟩, rfl⟩
  · exact ⟨⟨_, Or.inr rfl, rfl⟩, rfl⟩

/-- The name of a new connection is not in the map. -/
theorem lookup_connName (h : ServerInv s) (ha : s.life = .alive)
    (hb : s.accepted.length + 1 < 2 ^ 31) :
    s.connections.lookup (connName s.name s.ipPort s.nextConnId) = none := by
  by_contra hd
  obtain ⟨d, hd⟩ := Option.ne_none_iff_exists'.mp hd
  obtain ⟨hmem, hname, -⟩ := (h.table ha _ d).mp hd
  obtain ⟨i, hi⟩ := List.mem_iff_getElem?.mp hmem
  have hlt := (List.getElem?_eq_some_iff.mp hi).1
  rw [(h.named.id i d hi).2, h.named.nextConnId] at hname
  have := connName_injective h.named.ipPort (by omega) hb hname
  omega

theorem adds_newConnection (h : ServerInv s) (ha : s.life = .alive)
    (hb : s.accepted.length + 1 < 2 ^ 31) : ∃ es, s.newConnection.trace = s.trace ++ es ∧
      Adds s es ∧ s.newConnection.life = .alive := by
  have hnone : s.connections.lookup s.newConn.name = none := lookup_connName h ha hb
  obtain ⟨⟨e, he, htr⟩, hl⟩ := runInLoop_trace (s.enlist s.newConn) 0
    (f := .connectEstablished s.newConn) rfl
  refine ⟨[.inserted s.newConn none, e], ?_, .accept he, hl.trans ha⟩
  rw [newConnection_eq, ← hnone]
  exact htr.trans (List.append_assoc _ _ _)

theorem adds_stepped (h : ServerInv s) (ha : s.life = .alive) (hok : TableOk s a)
    (hst : Stepped s a t) : ∃ es, t.trace = s.trace ++ es ∧ Adds s es ∧ t.life = .alive := by
  have hlife : s.life ≠ .destroyed := by simp [ha]
  cases hst with
  | accept ha' => exact adds_newConnection h ha hok
  | closeCallback l c hc =>
    obtain ⟨hmem, -⟩ := h.placed.closing l c hc
    have hacc := h.account c hmem
    have hcl : s.closed c = 0 := List.count_eq_zero.mpr (hok c hc).1
    have hran : s.ran (.removeConnectionInLoop c) = 0 := by
      have := hacc.closes
      omega
    rw [removeConnection, if_neg (by exact hlife), runInLoop]
    split
    · obtain ⟨htr, hl⟩ := runTask_trace (s := (s.setLoop l _).emit (.closeCallback c)) (c := c) hlife
        (h.lookup ha hmem hran)
      exact ⟨_, htr.trans (List.append_assoc _ _ _), .closeNow, hl.trans ha⟩
    · exact ⟨_, List.append_assoc _ _ _, .close, ha⟩
  | run l f fs hr hp =>
    obtain ⟨hmem, rfl⟩ := h.placed.tasks l f (Batched.mem_queue_of_rest hr)
    have hw : 1 ≤ s.waiting f := List.count_pos_iff.mpr (Batched.mem_queue_of_rest hr)
    cases f with
    | removeConnectionInLoop c =>
      have hacc := h.account c hmem
      have hran : s.ran (.removeConnectionInLoop c) = 0 := by
        have := hacc.closes
        have := hacc.once
        omega
      obtain ⟨htr, hl⟩ := runTask_trace (s := s.pop 0) (c := c) hlife (h.lookup ha hmem hran)
      exact ⟨_, htr, .remove, hl.trans ha⟩
    | connectEstablished c | connectDestroyed c => exact ⟨_, rfl, .run rfl hw, ha⟩
  | handleClose _ _ | doPendingFunctors _ _ | iterate _ _ _ =>
    exact ⟨[], (List.append_nil _).symm, .nothing, ha⟩
  | destroy ha' => exact hok.elim
  | destroyNext c rest hl hc => simp [ha] at hl
  | destroyed hl => simp [ha] at hl
  | quit l hl => simp [ha] at hl

/-! ### The history -/

/-- What the history of a server that is not destroyed says. -/
structure History (s : TcpServer) : Prop where
  inserted : ∀ c old, .inserted c old ∈ s.trace → old = none
  erased : ∀ c found, .erased c found ∈ s.trace → found = some c
  queued : ∀ c, s.trace.count (.queued c.loop (.connectDestroyed c)) =
    s.trace.count (.ran 0 (.removeConnectionInLoop c))
  order : ∀ l c p, p ++ [.ran l (.connectDestroyed c)] <+: s.trace →
    .ran l (.connectEstablished c) ∈ p

/-- A connection whose `connectDestroyed` waits has been established. -/
theorem established_of_waiting (h : ServerInv s) (ha : s.life = .alive)
    (hw : 1 ≤ s.waiting (.connectDestroyed c)) : .ran c.loop (.connectEstablished c) ∈ s.trace := by
  have hmem : c ∈ s.accepted := (h.placed.tasks _ _ (List.count_pos_iff.mp hw)).1
  have hacc := h.account c hmem
  have hheld : s.ran (.removeConnectionInLoop c) ≠ 0 := by
    intro hr
    have hplace := hacc.place
    rw [TcpServer.held, ha, hr] at hplace
    simp only [if_true] at hplace
    omega
  have hclosed := hacc.closes
  exact List.count_pos_iff.mp (hacc.up (by omega))

/-- A removal queues `connectDestroyed` in the connection's loop, and nothing else does. -/
theorem Adds.queued {es : List ServerEvent} (h : Adds s es) (c : TcpConnectionPtr) :
    es.count (.queued c.loop (.connectDestroyed c)) =
      es.count (.ran 0 (.removeConnectionInLoop c)) := by
  have hremove : ∀ d : TcpConnectionPtr, [ServerEvent.ran 0 (.removeConnectionInLoop d),
      .erased d (some d), .queued d.loop (.connectDestroyed d)].count
        (.queued c.loop (.connectDestroyed c)) = [ServerEvent.ran 0 (.removeConnectionInLoop d),
      .erased d (some d), .queued d.loop (.connectDestroyed d)].count
        (.ran 0 (.removeConnectionInLoop c)) := by
    intro d
    by_cases hd : d = c
    · subst hd
      simp
    · simp [hd]
  cases h with
  | nothing => rfl
  | accept he => rcases he with rfl | rfl <;> simp
  | close => simp
  | closeNow => simpa [List.count_cons] using hremove _
  | remove => exact hremove _
  | @run f hf =>
    cases f with
    | removeConnectionInLoop => cases hf
    | _ => simp

theorem history_adds (h : ServerInv s) (ha : s.life = .alive) (hh : History s)
    {es : List ServerEvent} (hes : Adds s es) (ht : t.trace = s.trace ++ es) : History t := by
  refine ⟨?_, ?_, ?_, ?_⟩
  · intro c old hm
    rw [ht] at hm
    rcases List.mem_append.mp hm with hm | hm
    · exact hh.inserted c old hm
    · cases hes with
      | accept he => rcases he with rfl | rfl <;> simp_all
      | _ => simp at hm
  · intro c found hm
    rw [ht] at hm
    rcases List.mem_append.mp hm with hm | hm
    · exact hh.erased c found hm
    · cases hes with
      | accept he => rcases he with rfl | rfl <;> simp at hm
      | closeNow | remove => simp_all
      | _ => simp at hm
  · intro c
    rw [ht, List.count_append, List.count_append, hh.queued, hes.queued]
  · intro l c p hp
    rw [ht] at hp
    cases hes with
    | @run f hf hw =>
      rcases List.prefix_concat_iff.mp hp with hp | hp
      · obtain ⟨rfl, he⟩ := List.append_inj' hp rfl
        obtain ⟨rfl, rfl⟩ := ServerEvent.ran.inj (List.singleton_inj.mp he)
        exact established_of_waiting h ha hw
      · exact hh.order l c p hp
    | accept he =>
      refine hh.order l c p (List.prefix_of_concat_prefix_append hp ?_)
      rcases he with rfl | rfl <;> simp
    | _ => exact hh.order l c p (List.prefix_of_concat_prefix_append hp (by simp))

theorem tableExact_of_inv (h : ServerInv s) (ha : s.life = .alive) (hh : History s) :
    TableExact s where
  names := by
    rw [List.nodup_iff_getElem?_ne_getElem?]
    intro i j hij hj he
    rw [List.length_map] at hj
    rw [List.getElem?_map, List.getElem?_map, List.getElem?_eq_getElem (by omega),
      List.getElem?_eq_getElem hj, Option.map_some, Option.map_some, Option.some.injEq] at he
    have hc := h.named.name_injective (List.getElem_mem _) (List.getElem_mem _) he
    have hi := (h.named.id i _ (List.getElem?_eq_getElem (by omega))).1
    have hj' := (h.named.id j _ (List.getElem?_eq_getElem hj)).1
    rw [hc] at hi
    omega
  inserted := hh.inserted
  entries n c := by
    rw [h.table ha n c, ran, List.count_eq_zero]
    rfl
  erased := hh.erased
  asserted := h.aborted
  order l c p hp := by
    have hmem : .ran l (.connectDestroyed c) ∈ s.trace := hp.subset (by simp)
    exact ⟨h.placed.ran l _ (Or.inl hmem), hh.order l c p hp⟩
  closes c := by
    by_cases hc : c ∈ s.accepted
    · exact (h.account c hc).closes.symm
    · have h1 := h.placed.closed_eq_zero hc
      have h2 := h.placed.ran_eq_zero (g := .removeConnectionInLoop c) hc
      have h3 := h.placed.waiting_eq_zero (g := .removeConnectionInLoop c) hc
      simp only [closed, ran, waiting, Task.home] at h1 h2 h3
      omega
  queued := hh.queued
  home l c hq := h.placed.ran l _ (Or.inr hq)

theorem serverInv_init {name ipPort : Text} (n : Nat) (hip : ipPort.length ≤ 51) :
    ServerInv (init name ipPort n) := by
  refine ⟨⟨rfl, by simp [init], hip, by simp [init], ?_, by simp [init]⟩,
    ⟨by simp [init], by simp [init], by simp [init], by simp [init]⟩, by simp [init], ?_, ?_, ?_, rfl,
    rfl⟩
  · exact (Nat.eq_zero_or_pos n).imp id id
  · simp [init]
  · simp [init]
  · simp [init]

/-- **The connection table is exact** in every run whose steps are `TableOk`. -/
theorem table_exact {name ipPort : Text} (n : Nat) (hip : ipPort.length ≤ 51) {as : List Act}
    {t : TcpServer} (hrun : Steps.run (Steps.guarded TableOk step) (init name ipPort n) as = some t) :
    TableExact t := by
  have h : (ServerInv t ∧ Batches t.loops) ∧ t.life = .alive ∧ History t := by
    refine Steps.run_invariant
      (I := fun s => (ServerInv s ∧ Batches s.loops) ∧ s.life = .alive ∧ History s) ?_ ?_ hrun
    · rintro s a u ⟨⟨h, hb⟩, ha, hh⟩ hs
      obtain ⟨hok, hs⟩ := Steps.guarded_eq_some.mp hs
      obtain ⟨es, htr, hes, hal⟩ := adds_stepped h ha hok (step_stepped hs)
      exact ⟨⟨serverInv_stepped h hb (hok.account ha) (step_stepped hs),
        batches_stepped hb (step_stepped hs)⟩, hal,
        history_adds h ha hh hes htr⟩
    · refine ⟨⟨serverInv_init n hip, fun _ _ => rfl⟩, rfl, ?_⟩
      exact ⟨by simp [init], by simp [init], by simp [init], by simp [init]⟩
  exact tableExact_of_inv h.1.1 h.2.1 h.2.2

/-- A server on `127.0.0.1:80` with two I/O loops accepts two connections, and the first closes. -/
def closesFirst : List Act :=
  let c : TcpConnectionPtr := ⟨0, 1, "s-127.0.0.1:80#1".toList⟩
  [.accept, .accept, .doPendingFunctors 1, .run 1, .iterate 1, .handleClose c, .closeCallback 1,
    .doPendingFunctors 0, .run 0, .iterate 0, .doPendingFunctors 1, .run 1]

theorem table_exact_closes : ∃ t, Steps.run (Steps.guarded TableOk step)
    (init "s".toList "127.0.0.1:80".toList 2) closesFirst = some t ∧
    t.accepted.length = 2 ∧ t.connections.keys.length = 1 ∧ TableExact t := by
  have hobs : (Steps.run (Steps.guarded TableOk step) (init "s".toList "127.0.0.1:80".toList 2)
      closesFirst).any (fun t => decide (t.accepted.length = 2 ∧ t.connections.keys.length = 1)) =
        true := by decide
  obtain ⟨t, ht, hobs⟩ := (Option.any_eq_true _ _).mp hobs
  obtain ⟨h1, h2⟩ := of_decide_eq_true hobs
  exact ⟨t, ht, h1, h2, table_exact 2 (by decide) ht⟩

end

end TcpServer

end SimpleNet
