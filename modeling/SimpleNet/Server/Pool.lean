import SimpleNet.Server.Account
import Mathlib.Data.Int.CardIntervalMod

/-!
# Connections over the loops

`EventLoopThreadPool::getNextLoop` deals the connections of a server out in turn, and everything
that is queued for a connection runs in its loop.  Both hold in every run, through the destructor
of the server and after the wrap of `nextConnId_`.

`balanced`: the `i`-th connection is in the loop `i % n + 1` of `n`, so that the loops' shares
differ by at most one; and a functor runs only in the loop where it belongs (`Confined`).
-/

namespace SimpleNet

namespace TcpServer

/-! ### The turn -/

/-- The loop of the `i`-th connection. -/
def turn (n i : Nat) : Nat := if n = 0 then 0 else i % n + 1

/-- `next_` after `k` calls of `getNextLoop`. -/
def nextAfter (n k : Nat) : Nat := if n = 0 then 0 else k % n

/-- How many connections a loop was given. -/
def share (s : TcpServer) (l : Nat) : Nat := s.accepted.countP fun c => c.loop = l

/-- `getLoopForHash` and `getAllLoops` of the pool, whose loops are 1, ..., `numLoops`. -/
def getLoopForHash (s : TcpServer) (hashCode : Nat) : Nat := turn s.numLoops hashCode

def getAllLoops (s : TcpServer) : List Nat :=
  if s.numLoops = 0 then [0] else (List.range s.numLoops).map (· + 1)

section

variable {s t : TcpServer} {a : Act} {c : TcpConnectionPtr} {f : Task} {l m n i k : Nat}

theorem getNextLoop_turn (h : s.next = nextAfter s.numLoops k) :
    s.getNextLoop = (turn s.numLoops k, nextAfter s.numLoops (k + 1)) := by
  unfold getNextLoop turn nextAfter at *
  by_cases hn : s.numLoops = 0
  · rw [if_pos hn] at h ⊢
    rw [if_pos hn, if_pos hn, h]
  · rw [if_neg hn] at h ⊢
    rw [if_neg hn, if_neg hn, h]
    have hlt := Nat.mod_lt k (Nat.pos_of_ne_zero hn)
    rw [← Nat.mod_add_mod k s.numLoops 1]
    refine congrArg (Prod.mk _) ?_
    split
    · next hge =>
      have heq : k % s.numLoops + 1 = s.numLoops := by omega
      rw [heq, Nat.mod_self]
    · next hge => exact (Nat.mod_eq_of_lt (by omega)).symm

theorem turn_mem_getAllLoops (s : TcpServer) (k : Nat) : turn s.numLoops k ∈ s.getAllLoops := by
  unfold turn getAllLoops
  split
  · exact List.mem_singleton_self 0
  · next hn =>
    refine List.mem_map.mpr ⟨k % s.numLoops, List.mem_range.mpr ?_, rfl⟩
    exact Nat.mod_lt k (Nat.pos_of_ne_zero hn)

/-! ### The account of the connections -/

/-- What an `accept` alone changes. -/
def ledger (s : TcpServer) : Nat × Nat × List TcpConnectionPtr := (s.numLoops, s.next, s.accepted)

theorem ledger_removeConnectionInLoop (s : TcpServer) (c : TcpConnectionPtr) :
    (s.removeConnectionInLoop c).ledger = s.ledger := by
  unfold removeConnectionInLoop
  split
  · rfl
  · simp only
    split <;> rfl

theorem ledger_runInLoop (s : TcpServer) (cur l : Nat) (f : Task) :
    (s.runInLoop cur l f).ledger = s.ledger := by
  unfold runInLoop
  split
  · cases f with
    | removeConnectionInLoop c => exact ledger_removeConnectionInLoop (s.emit (.ran l _)) c
    | _ => rfl
  · rfl

theorem ledger_runTask (s : TcpServer) (l : Nat) (f : Task) : (s.runTask l f).ledger = s.ledger := by
  have h := ledger_runInLoop s l l f
  rwa [runInLoop, if_pos rfl] at h

theorem ledger_removeConnection (s : TcpServer) (l : Nat) (c : TcpConnectionPtr) :
    (s.removeConnection l c).ledger = s.ledger := by
  unfold removeConnection
  split
  · rfl
  · exact ledger_runInLoop s l 0 _

theorem ledger_newConnection (s : TcpServer) : s.newConnection.ledger =
    (s.numLoops, s.getNextLoop.2, s.accepted ++ [s.newConn]) := by
  rw [newConnection_eq]
  exact ledger_runInLoop _ _ _ _

theorem ledger_stepped (hst : Stepped s a t) :
    t.ledger = s.ledger ∨ t.ledger = (s.numLoops, s.getNextLoop.2, s.accepted ++ [s.newConn]) := by
  cases hst with
  | accept ha => exact Or.inr (ledger_newConnection s)
  | closeCallback l c hc => exact Or.inl (ledger_removeConnection _ l c)
  | run l f fs hr hp => exact Or.inl (ledger_runTask _ l f)
  | destroyNext c rest hl hc => exact Or.inl (ledger_runInLoop { s with life := _ } _ _ _)
  | handleClose | doPendingFunctors | iterate | destroy | destroyed | quit => exact Or.inl rfl

/-- The connections are dealt out in turn. -/
structure Dealt (n : Nat) (s : TcpServer) : Prop where
  numLoops : s.numLoops = n
  next : s.next = nextAfter n s.accepted.length
  loop : ∀ i c, s.accepted[i]? = some c → c.loop = turn n i
  share : ∀ l, s.share l = Nat.count (fun i => turn n i = l) s.accepted.length

theorem dealt_stepped (h : Dealt n s) (hst : Stepped s a t) : Dealt n t := by
  have hnum := h.numLoops
  rcases ledger_stepped hst with he | he
  · obtain ⟨h1, h2, h3⟩ : t.numLoops = s.numLoops ∧ t.next = s.next ∧ t.accepted = s.accepted :=
      ⟨congrArg Prod.fst he, congrArg (fun x => x.2.1) he, congrArg (fun x => x.2.2) he⟩
    refine ⟨h1.trans hnum, ?_, ?_, ?_⟩
    · rw [h2, h3, h.next]
    · rw [h3]
      exact h.loop
    · intro l
      show t.accepted.countP _ = _
      rw [h3]
      exact h.share l
  · have hturn := getNextLoop_turn (hnum.symm ▸ h.next)
    rw [hnum] at hturn
    obtain ⟨h1, h2, h3⟩ : t.numLoops = s.numLoops ∧ t.next = nextAfter n (s.accepted.length + 1) ∧
        t.accepted = s.accepted ++ [s.newConn] := by
      refine ⟨congrArg Prod.fst he, ?_, congrArg (fun x => x.2.2) he⟩
      rw [show t.next = s.getNextLoop.2 from congrArg (fun x => x.2.1) he, hturn]
    have hloop : s.newConn.loop = turn n s.accepted.length := by
      show s.getNextLoop.1 = _
      rw [hturn]
    refine ⟨h1.trans hnum, ?_, ?_, ?_⟩
    · rw [h2, h3, List.length_append, List.length_singleton]
    · intro i c hc
      rw [h3] at hc
      by_cases hi : i < s.accepted.length
      · rw [List.getElem?_append_left hi] at hc
        exact h.loop i c hc
      · obtain ⟨hlt, hget⟩ := List.getElem?_eq_some_iff.mp hc
        rw [List.length_append, List.length_singleton] at hlt
        obtain rfl : i = s.accepted.length := by omega
        rw [List.getElem_concat_length rfl] at hget
        rw [← hget, hloop]
    · intro l
      show t.accepted.countP _ = _
      rw [h3, List.countP_append, List.length_append, List.length_singleton, Nat.count_succ,
        List.countP_singleton, hloop]
      refine congrArg₂ (· + ·) (h.share l) ?_
      simp only [decide_eq_true_eq]

/-- The loops' shares of `k` connections. -/
theorem count_turn (hl : 0 < l) (hln : l ≤ n) (k : Nat) :
    Nat.count (fun i => turn n i = l) k = k / n + if l - 1 < k % n then 1 else 0 := by
  have hn : 0 < n := Nat.lt_of_lt_of_le hl hln
  have hmod : (l - 1) % n = l - 1 := Nat.mod_eq_of_lt (by omega)
  have hiff : ∀ i, turn n i = l ↔ i ≡ l - 1 [MOD n] := by
    intro i
    rw [turn, if_neg hn.ne', Nat.ModEq, hmod]
    omega
  simp only [hiff]
  rw [Nat.count_modEq_card k hn, hmod]

/-! ### Functors in their loops -/

/-- What waits in a loop, and what has run in it, belongs there. -/
structure Confined (s : TcpServer) : Prop where
  tasks : ∀ l, ∀ f ∈ (s.loops l).functors.queue, l = f.home
  ran : ∀ l f, .ran l f ∈ s.trace → l = f.home

theorem Confined.emit (h : Confined s) {e : ServerEvent} (he : ∀ l f, e = .ran l f → l = f.home) :
    Confined (s.emit e) where
  tasks := h.tasks
  ran l f hf := by
    rcases List.mem_append.mp hf with hf | hf
    · exact h.ran l f hf
    · exact he l f (List.mem_singleton.mp hf).symm

theorem Confined.setLoop (h : Confined s) {x : ServerLoop}
    (hx : ∀ f ∈ x.functors.queue, l = f.home) : Confined (s.setLoop l x) where
  tasks k := by
    by_cases hk : k = l
    · subst hk
      rw [setLoop_self]
      exact hx
    · rw [setLoop_of_ne _ hk]
      exact h.tasks k
  ran := h.ran

theorem Confined.queueInLoop (h : Confined s) (hf : l = f.home) : Confined (s.queueInLoop l f) := by
  refine (h.emit (e := .queued l f) nofun).setLoop ?_
  intro g hg
  rw [Batched.queue_push] at hg
  rcases List.mem_append.mp hg with hg | hg
  · exact h.tasks l g hg
  · rw [List.mem_singleton.mp hg]
    exact hf

theorem Confined.removeConnectionInLoop (h : Confined s) (c : TcpConnectionPtr) :
    Confined (s.removeConnectionInLoop c) := by
  unfold TcpServer.removeConnectionInLoop
  split
  · exact ⟨h.tasks, h.ran⟩
  · have herase : Confined { s.emit (.erased c (s.connections.lookup c.name)) with
        connections := s.connections.erase c.name } :=
      ⟨h.tasks, (h.emit (e := .erased c (s.connections.lookup c.name)) nofun).ran⟩
    simp only
    split
    · exact herase.queueInLoop rfl
    · exact ⟨herase.tasks, herase.ran⟩

theorem Confined.runTask (h : Confined s) (hf : l = f.home) : Confined (s.runTask l f) := by
  have hran : Confined (s.emit (.ran l f)) := by
    refine h.emit ?_
    rintro l' f' ⟨⟩
    exact hf
  cases f with
  | removeConnectionInLoop c => exact hran.removeConnectionInLoop c
  | _ => exact hran

theorem Confined.runInLoop (h : Confined s) (cur : Nat) (hf : l = f.home) :
    Confined (s.runInLoop cur l f) := by
  unfold TcpServer.runInLoop
  split
  · exact h.runTask hf
  · exact h.queueInLoop hf

theorem Confined.removeConnection (h : Confined s) (l : Nat) (c : TcpConnectionPtr) :
    Confined (s.removeConnection l c) := by
  unfold TcpServer.removeConnection
  split
  · exact ⟨h.tasks, h.ran⟩
  · exact h.runInLoop l rfl

theorem confined_stepped (h : Confined s) (hb : Batches s.loops) (hst : Stepped s a t) :
    Confined t := by
  cases hst with
  | accept ha =>
    rw [newConnection_eq]
    have hins : Confined (s.enlist s.newConn) :=
      ⟨h.tasks, (h.emit (e := .inserted s.newConn (s.connections.lookup s.newConn.name)) nofun).ran⟩
    exact hins.runInLoop 0 rfl
  | handleClose c hc => exact h.setLoop (h.tasks c.loop)
  | closeCallback l c hc =>
    have hset : Confined (s.setLoop l { s.loops l with closing := none }) := h.setLoop (h.tasks l)
    exact (hset.emit (e := .closeCallback c) nofun).removeConnection l c
  | doPendingFunctors l hp =>
    refine h.setLoop fun f hf => h.tasks l f ?_
    rwa [Batched.queue_swap (hb l (by rw [hp]; exact nofun))] at hf
  | run l f fs hr hp =>
    have hf : f ∈ (s.loops l).functors.queue := Batched.mem_queue_of_rest hr
    have hpop : Confined (s.pop l) := h.setLoop fun g hg => h.tasks l g (Batched.mem_queue_of_tail hg)
    exact hpop.runTask (h.tasks l f hf)
  | iterate l hp hr => exact h.setLoop (h.tasks l)
  | destroy ha => exact ⟨h.tasks, h.ran⟩
  | destroyNext c rest hl hc =>
    exact Confined.runInLoop (s := { s with life := .destroying (rest.erase c) }) ⟨h.tasks, h.ran⟩ 0 rfl
  | destroyed hl => exact ⟨h.tasks, h.ran⟩
  | quit l hl => exact h.setLoop (h.tasks l)

/-- **Connections are dealt out evenly and stay in their loops.** -/
theorem balanced {name ipPort : Text} (n : Nat) {as : List Act} {t : TcpServer}
    (hrun : Steps.run step (init name ipPort n) as = some t) :
    (∀ i c, t.accepted[i]? = some c → c.loop = turn n i ∧ c.loop ∈ t.getAllLoops) ∧
      (∀ hashCode, t.getLoopForHash hashCode ∈ t.getAllLoops) ∧
      (∀ l ∈ t.getAllLoops, ∀ m ∈ t.getAllLoops, t.share l ≤ t.share m + 1) ∧
      ∀ l f, .ran l f ∈ t.trace → l = f.home := by
  have hinit : Dealt n (init name ipPort n) ∧ Confined (init name ipPort n) ∧
      Batches (init name ipPort n).loops := by
    refine ⟨⟨rfl, ?_, nofun, fun _ => rfl⟩, ⟨nofun, nofun⟩, fun _ _ => rfl⟩
    unfold nextAfter
    split
    · rfl
    · exact (Nat.zero_mod n).symm
  obtain ⟨hd, hc, -⟩ := Steps.run_invariant
    (I := fun s => Dealt n s ∧ Confined s ∧ Batches s.loops)
    (fun s a t h hst => ⟨dealt_stepped h.1 (step_stepped hst),
      confined_stepped h.2.1 h.2.2 (step_stepped hst), batches_stepped h.2.2 (step_stepped hst)⟩)
    hinit hrun
  refine ⟨?_, turn_mem_getAllLoops t, ?_, hc.ran⟩
  · intro i c hic
    have hloop := hd.loop i c hic
    refine ⟨hloop, ?_⟩
    rw [hloop, ← hd.numLoops]
    exact turn_mem_getAllLoops t i
  · intro l hl m hm
    unfold getAllLoops at hl hm
    rw [hd.numLoops] at hl hm
    split at hl
    · rw [List.mem_singleton.mp hl]
      rw [if_pos (by assumption)] at hm
      rw [List.mem_singleton.mp hm]
      exact Nat.le_succ _
    · rw [if_neg (by assumption)] at hm
      obtain ⟨i, hi, rfl⟩ := List.mem_map.mp hl
      obtain ⟨j, hj, rfl⟩ := List.mem_map.mp hm
      rw [hd.share, hd.share, count_turn (Nat.succ_pos i) (List.mem_range.mp hi),
        count_turn (Nat.succ_pos j) (List.mem_range.mp hj)]
      split <;> split <;> omega

/-- Two loops and three connections. -/
theorem balanced_three : ∃ t,
    Steps.run step (init "s".toList "127.0.0.1:80".toList 2) [.accept, .accept, .accept] = some t ∧
    ∀ l ∈ t.getAllLoops, ∀ m ∈ t.getAllLoops, t.share l ≤ t.share m + 1 := by
  have hrun : Steps.run step (init "s".toList "127.0.0.1:80".toList 2) [.accept, .accept, .accept] =
    some _ := rfl
  exact ⟨_, hrun, (balanced 2 hrun).2.2.1⟩

end

end TcpServer

end SimpleNet
